import SharpSmith.Proofs.Calls
import SharpSmith.Proofs.Resolution

/-!
# The imports of a manifest

Every call that a manifest asks for records the types that its texts mean, and no others; so the
file that is built imports exactly the namespaces of the types that are written anywhere in the
manifest. `Registers` says of a call which types it records when it succeeds, `Lowers` of a part of
a manifest that its call records what the part's type texts mean.
-/

namespace SharpSmith.Build

variable {α σ : Type}

/-- A call that is not caught and that records the given types when it succeeds. -/
structure Registers (deps : σ → Dependencies) (step : α → σ → Run σ) (c : Call α)
    (ts : List TypeRef) : Prop where
  strict : c.caught = false
  records : ∀ s, (step c.act s).result = .ok () →
    deps (step c.act s).state = (deps s).addAll ts

/-- Calls that record the given types, one call after the other. -/
inductive RegistersAll (deps : σ → Dependencies) (step : α → σ → Run σ) :
    List (Call α) → List TypeRef → Prop where
  | nil : RegistersAll deps step [] []
  | cons {c cs ts us} :
    Registers deps step c ts →
    RegistersAll deps step cs us →
    RegistersAll deps step (c :: cs) (ts ++ us)

variable {deps : σ → Dependencies} {step : α → σ → Run σ}

/-- Calls after others record the types of those and then their own. -/
lemma RegistersAll.append {cs ds ts us} (hc : RegistersAll deps step cs ts)
    (hd : RegistersAll deps step ds us) : RegistersAll deps step (cs ++ ds) (ts ++ us) := by
  induction hc with
  | nil => exact hd
  | cons h _ ih =>
    rw [List.append_assoc]
    exact .cons h ih

/-- Calls that record nothing may stand at the end. -/
lemma RegistersAll.append_silent {cs ds ts} (hc : RegistersAll deps step cs ts)
    (hd : RegistersAll deps step ds []) : RegistersAll deps step (cs ++ ds) ts := by
  have := hc.append hd
  rwa [List.append_nil] at this

/-- One call records its types. -/
lemma RegistersAll.single {c ts} (h : Registers deps step c ts) :
    RegistersAll deps step [c] ts := by
  have := RegistersAll.cons h .nil
  rwa [List.append_nil] at this

/-- Calls none of which records anything record nothing. -/
lemma RegistersAll.silent {cs : List (Call α)} (h : ∀ c ∈ cs, Registers deps step c []) :
    RegistersAll deps step cs [] := by
  induction cs with
  | nil => exact .nil
  | cons c cs ih => exact .cons (h c (.head _)) (ih fun d hd => h d (.tail _ hd))

/-- Calls that succeed record their types in order. -/
lemma RegistersAll.runAll {cs ts s} (h : RegistersAll deps step cs ts)
    (hok : (Call.runAll step cs s).result = .ok ()) :
    deps (Call.runAll step cs s).state = (deps s).addAll ts := by
  induction h generalizing s with
  | nil => rfl
  | @cons c cs ts us hc _ ih =>
    rw [Call.runAll] at hok ⊢
    split at hok
    case h_1 hr =>
      obtain ⟨hrun, hstep⟩ := Call.run_of_ok hr
      show deps (Call.runAll step cs (c.run step s).state).state = _
      rw [ih hok, hrun, hc.records s hstep, Dependencies.addAll_append]
    case h_2 e hr =>
      -- a failure is not caught, so nothing would have come after it
      rw [if_neg (by simp [hc.strict]), hr] at hok
      cases hok

/-- Collecting attributes with these calls records the given types. -/
def Collects (calls : List (Call AttributeStep)) (ts : List TypeRef) : Prop :=
  RegistersAll AttributesDraft.dependencies AttributeStep.run calls ts

/-- Attributes that are collected record their types with the needs at hand. -/
lemma Collects.collect {calls ts r} (h : Collects calls ts)
    (hok : (AttributeStep.collect calls r).result = .ok ()) :
    (AttributeStep.collect calls r).state.dependencies = r.addAll ts :=
  RegistersAll.runAll h hok

/-- Applying an attribute records its type. -/
lemma registers_attribute {place : Option Span} {type args} :
    Registers AttributesDraft.dependencies AttributeStep.run
      ⟨.add type args, false, place⟩ [type] := by
  refine ⟨rfl, fun d hok => ?_⟩
  simp only [AttributeStep.run] at *
  split at hok
  case h_1 => rfl
  case h_2 => cases hok

/-- An attribute without arguments records its type. -/
lemma registers_bare {place : Option Span} {type} :
    Registers AttributesDraft.dependencies AttributeStep.run
      ⟨.addBare type, false, place⟩ [type] :=
  ⟨rfl, fun _ _ => rfl⟩

/-- Applying attributes to a property records their types. -/
lemma registers_handle_attributes {calls ts} (h : Collects calls ts) :
    Registers OpenProperty.dependencies HandleStep.run (.plain (.attributes calls)) ts := by
  refine ⟨rfl, fun d hok => ?_⟩
  obtain ⟨hstate, hcollect⟩ := Run.commit_of_ok hok
  exact (congrArg OpenProperty.dependencies hstate).trans (h.collect hcollect)

/-- Adding a property records its type and what its details record. -/
lemma registers_property {place : Option Span} {name type calls ts}
    (h : RegistersAll OpenProperty.dependencies HandleStep.run calls ts) :
    Registers PropertiesDraft.dependencies PropertyStep.run
        ⟨.add name type calls, false, place⟩ (type :: ts) ∧
      Registers PropertiesDraft.dependencies PropertyStep.run
        ⟨.addPrivate name type calls, false, place⟩ (type :: ts) :=
  ⟨⟨rfl, fun _ hok => h.runAll hok⟩, ⟨rfl, fun _ hok => h.runAll hok⟩⟩

/-- Attributes of a method record their types. -/
lemma registers_method_attributes {calls ts} (h : Collects calls ts) :
    Registers MethodDraft.dependencies MethodStep.run (.plain (.attributes calls)) ts := by
  refine ⟨rfl, fun d hok => ?_⟩
  obtain ⟨hstate, hcollect⟩ := Run.commit_of_ok hok
  exact (congrArg MethodDraft.dependencies hstate).trans (h.collect hcollect)

/-- Attributes of a constructor record their types. -/
lemma registers_constructor_attributes {calls ts} (h : Collects calls ts) :
    Registers ConstructorDraft.dependencies ConstructorStep.run
      (.plain (.attributes calls)) ts := by
  refine ⟨rfl, fun d hok => ?_⟩
  obtain ⟨hstate, hcollect⟩ := Run.commit_of_ok hok
  exact (congrArg ConstructorDraft.dependencies hstate).trans (h.collect hcollect)

/-- What a constructor passes on to its base class is no type. -/
lemma registers_base {act : ConstructorStep}
    (h : act = .mapBase ∨ ∃ args, act = .mapBaseWith args) :
    Registers ConstructorDraft.dependencies ConstructorStep.run (.plain act) [] := by
  refine ⟨rfl, fun d hok => ?_⟩
  rcases h with rfl | ⟨args, rfl⟩
  · rfl
  · show (ConstructorStep.run (.mapBaseWith args) d).state.dependencies = d.dependencies
    rw [ConstructorStep.run]
    split <;> rfl

variable {kind : DeclarationKind}

/-- Calls on a declaration. -/
abbrev Declares (c : Call (DeclarationStep kind)) (ts : List TypeRef) : Prop :=
  Registers Draft.dependencies DeclarationStep.run c ts

/-- Attributes of a declaration record their types. -/
lemma declares_attributes {calls ts} (h : Collects calls ts) :
    Declares (.plain (.attributes calls) : Call (DeclarationStep kind)) ts := by
  refine ⟨rfl, fun d hok => ?_⟩
  obtain ⟨hstate, hcollect⟩ := Run.commit_of_ok hok
  exact (congrArg Draft.dependencies hstate).trans (h.collect hcollect)

/-- Properties of a declaration record the types of the calls on them. -/
lemma declares_properties {calls ts}
    (h : RegistersAll PropertiesDraft.dependencies PropertyStep.run calls ts) :
    Declares (.plain (.properties calls) : Call (DeclarationStep kind)) ts := by
  refine ⟨rfl, fun d hok => ?_⟩
  obtain ⟨hstate, hrun⟩ := Run.commit_of_ok hok
  exact (congrArg Draft.dependencies hstate).trans (h.runAll hrun)

/-- A method of a declaration records the types of the calls on it. -/
lemma declares_method {place : Option Span} {name calls ts}
    (h : RegistersAll MethodDraft.dependencies MethodStep.run calls ts) :
    Declares (⟨.method name calls, false, place⟩ : Call (DeclarationStep kind)) ts := by
  refine ⟨rfl, fun d hok => ?_⟩
  obtain ⟨hstate, hrun⟩ := Run.commit_of_ok hok
  exact (congrArg Draft.dependencies hstate).trans (h.runAll hrun)

/-- A constructor of a class records the types of the calls on it. -/
lemma declares_constructor {place : Option Span} {calls ts}
    (h : RegistersAll ConstructorDraft.dependencies ConstructorStep.run calls ts) :
    Declares ⟨.constructor calls, false, place⟩ ts := by
  refine ⟨rfl, fun d hok => ?_⟩
  have hrun : ∀ r, r = Call.runAll ConstructorStep.run calls (.new d.dependencies d.name) →
      r.result = .ok () → r.state.dependencies = d.dependencies.addAll ts := by
    rintro r rfl hr
    exact h.runAll hr
  revert hok
  simp only [DeclarationStep.run, Draft.addConstructor]
  generalize Call.runAll ConstructorStep.run calls (.new d.dependencies d.name) = r at hrun
  split
  case h_1 => exact nofun
  case h_2 hr =>
    split
    case isTrue => exact nofun
    case isFalse => exact fun _ => hrun r rfl hr

/-- Extending a type records it. -/
lemma declares_extend {place : Option Span} {type} :
    Declares (⟨.extend type, false, place⟩ : Call (DeclarationStep kind)) [type] := by
  refine ⟨rfl, fun d hok => ?_⟩
  revert hok
  simp only [DeclarationStep.run, Draft.addInterface, Draft.setBase]
  split
  · split
    · exact fun _ => rfl
    · exact nofun
  · split
    · exact nofun
    · split
      · exact nofun
      · exact fun _ => rfl

/-- Implementing an interface records it. -/
lemma declares_implement {place : Option Span} {type} {allowed : kind ≠ .interfaceDecl} :
    Declares ⟨.implement type allowed, false, place⟩ [type] := by
  refine ⟨rfl, fun d hok => ?_⟩
  revert hok
  simp only [DeclarationStep.run, Draft.addInterface]
  split
  · exact fun _ => rfl
  · exact nofun

end SharpSmith.Build

namespace SharpSmith

/-- The type texts of a property: its type and those of its attributes. -/
def PropertyEntry.typeTexts (p : PropertyEntry) : List Quoted :=
  p.type :: p.attributes.map AttributeEntry.type

/-- The type texts of a constructor: those of its parameters and attributes. -/
def ConstructorEntry.typeTexts (k : ConstructorEntry) : List Quoted :=
  k.parameters.map ParameterEntry.type ++ k.attributes.map AttributeEntry.type

/-- The type texts of a method: its return type and those of its parameters and attributes. -/
def MethodEntry.typeTexts (m : MethodEntry) : List Quoted :=
  m.returns.toList ++ m.parameters.map ParameterEntry.type ++ m.attributes.map AttributeEntry.type

/-- All type texts of a declaration, in any member. -/
def Definition.typeTexts : Definition → List Quoted
  | .ofClass d =>
    d.attributes.map AttributeEntry.type ++ d.base.toList ++ d.interfaces ++
      d.properties.flatMap PropertyEntry.typeTexts ++
      d.constructors.flatMap ConstructorEntry.typeTexts ++
      d.methods.flatMap MethodEntry.typeTexts
  | .ofInterface d =>
    d.attributes.map AttributeEntry.type ++ d.bases ++
      d.properties.flatMap PropertyEntry.typeTexts ++ d.methods.flatMap MethodEntry.typeTexts
  | .ofRecord d =>
    d.attributes.map AttributeEntry.type ++ d.parameters.map ParameterEntry.type ++
      d.base.toList ++ d.interfaces ++ d.properties.flatMap PropertyEntry.typeTexts ++
      d.methods.flatMap MethodEntry.typeTexts

end SharpSmith

namespace SharpSmith.Manifest

open Build

/-- The types that texts mean, one after the other. -/
def Scope.Means (s : Scope) (qs : List Quoted) (ts : List TypeRef) : Prop :=
  List.Forall₂ (fun q t => s.resolve q = .ok t) qs ts

/-- Texts after others mean the types of those and then their own. -/
lemma Scope.Means.append {s : Scope} {qs qs' ts ts'} (h : s.Means qs ts) (h' : s.Means qs' ts') :
    s.Means (qs ++ qs') (ts ++ ts') :=
  List.rel_append h h'

/-- One text means its type. -/
lemma Scope.Means.single {s : Scope} {q t} (h : s.resolve q = .ok t) : s.Means [q] [t] :=
  .cons h .nil

variable {α σ : Type} {deps : σ → Dependencies} {step : α → σ → Run σ} {s : Scope}

/-- A part of a manifest with the given type texts: if there is a call for it, it records what the
texts mean. -/
def Lowers (s : Scope) (deps : σ → Dependencies) (step : α → σ → Run σ)
    (call : Except ManifestError (Call α)) (qs : List Quoted) : Prop :=
  ∀ c, call = .ok c → ∃ ts, s.Means qs ts ∧ Registers deps step c ts

/-- The calls for parts of a manifest record what all their type texts mean. -/
lemma registersAll_of_mapM {β : Type} {xs : List β} {f : β → Except ManifestError (Call α)}
    {texts : β → List Quoted} {calls} (h : ∀ x, Lowers s deps step (f x) (texts x))
    (hf : xs.mapM f = .ok calls) :
    ∃ ts, s.Means (xs.flatMap texts) ts ∧ RegistersAll deps step calls ts := by
  rw [mapM_eq_ok_iff] at hf
  induction hf with
  | nil => exact ⟨[], .nil, .nil⟩
  | @cons x c xs cs hx _ ih =>
    obtain ⟨ts, hts, hc⟩ := h x c hx
    obtain ⟨us, hus, hcs⟩ := ih
    exact ⟨ts ++ us, hts.append hus, .cons hc hcs⟩

/-- The call for an attribute records its type. -/
lemma lowers_attributeCall (d : AttributeEntry) :
    Lowers s AttributesDraft.dependencies AttributeStep.run (s.attributeCall d) [d.type] := by
  intro c h
  obtain ⟨t, ht, h⟩ := bind_eq_ok_iff.1 h
  cases h
  refine ⟨[t], .single ht, ?_⟩
  show Registers _ _ (⟨if d.args.isEmpty then _ else _, false, some _⟩ : Call AttributeStep) _
  split
  · exact registers_bare
  · exact registers_attribute

/-- The calls for attributes record their types. -/
lemma collects_attributeCalls {ds : List AttributeEntry} {calls}
    (h : s.attributeCalls ds = .ok calls) :
    ∃ ts, s.Means (ds.map AttributeEntry.type) ts ∧ Collects calls ts := by
  obtain ⟨ts, hts, hcalls⟩ := registersAll_of_mapM lowers_attributeCall h
  rw [← List.map_eq_flatMap] at hts
  exact ⟨ts, hts, hcalls⟩

/-- The types of parameters are what their texts mean. -/
lemma means_parameters {ds : List ParameterEntry} {ps} (h : s.parameters ds = .ok ps) :
    s.Means (ds.map ParameterEntry.type) (ps.map Prod.snd) := by
  unfold Scope.parameters at h
  rw [mapM_eq_ok_iff] at h
  induction h with
  | nil => exact .nil
  | cons h _ ih =>
    obtain ⟨t, ht, e⟩ := bind_eq_ok_iff.1 h
    cases e
    exact .cons ht ih

/-- Calls that add parameters record their types. -/
lemma registersAll_parameters {ps : List (String × TypeRef)} {act : String → TypeRef → α}
    (h : ∀ name type, Registers deps step (.plain (act name type)) [type]) :
    RegistersAll deps step (ps.map fun p => .plain (act p.1 p.2)) (ps.map Prod.snd) := by
  induction ps with
  | nil => exact .nil
  | cons p ps ih => exact .cons (h p.1 p.2) ih

/-- Calls made of a list that record nothing. -/
lemma registersAll_silent {β : Type} (xs : List β) (act : β → α)
    (h : ∀ x, Registers deps step (.plain (act x)) []) :
    RegistersAll deps step (xs.map fun x => .plain (act x)) [] := by
  refine .silent fun c hc => ?_
  obtain ⟨x, -, rfl⟩ := List.mem_map.1 hc
  exact h x

/-- The call for a property records what its type texts mean. -/
lemma lowers_propertyCall {inInterface} (d : PropertyEntry) :
    Lowers s PropertiesDraft.dependencies PropertyStep.run (s.propertyCall inInterface d)
      d.typeTexts := by
  intro c h
  simp only [Scope.propertyCall, bind_eq_ok_iff] at h
  obtain ⟨access, -, accessors, -, type, htype, attributes, hattributes, h⟩ := h
  obtain ⟨ts, hts, hcollects⟩ := collects_attributeCalls hattributes
  refine ⟨type :: ts, .cons htype hts, ?_⟩
  -- accessors and documentation record nothing, the attributes come last
  have hdetails : RegistersAll OpenProperty.dependencies HandleStep.run
      (accessors.map (fun a => .plain (.accessor a)) ++
        d.doc.toList.map (fun text => .plain (.doc text)) ++ [.plain (.attributes attributes)])
      ts := by
    have hsilent : RegistersAll OpenProperty.dependencies HandleStep.run
        (accessors.map (fun a => .plain (.accessor a)) ++
          d.doc.toList.map (fun text => .plain (.doc text))) [] :=
      .append (registersAll_silent _ _ fun _ => ⟨rfl, fun _ _ => rfl⟩)
        (registersAll_silent _ _ fun _ => ⟨rfl, fun _ _ => rfl⟩)
    exact hsilent.append (.single (registers_handle_attributes hcollects))
  cases h
  split
  · exact (registers_property hdetails).2
  · next m _ =>
    have hmodifier : Registers OpenProperty.dependencies HandleStep.run (.plain (.modifier m)) [] :=
      ⟨rfl, fun _ _ => rfl⟩
    exact (registers_property (.cons hmodifier hdetails)).1
  · exact (registers_property hdetails).1

/-- The call for a constructor records what its type texts mean. -/
lemma lowers_constructorCall {owner} (d : ConstructorEntry) :
    Lowers s Draft.dependencies DeclarationStep.run (s.constructorCall owner d) d.typeTexts := by
  intro c h
  simp only [Scope.constructorCall, bind_eq_ok_iff] at h
  obtain ⟨ps, hps, access, -, attributes, hattributes, base, hbase, h⟩ := h
  obtain ⟨ts, hts, hcollects⟩ := collects_attributeCalls hattributes
  refine ⟨ps.map Prod.snd ++ ts, (means_parameters hps).append hts, ?_⟩
  have hbase' : RegistersAll ConstructorDraft.dependencies ConstructorStep.run
      (base.map Call.plain) [] := by
    refine .silent fun c hc => ?_
    obtain ⟨act, hact, rfl⟩ := List.mem_map.1 hc
    refine registers_base ?_
    unfold Scope.baseCall at hbase
    split at hbase
    · cases hbase
      cases hact
    · cases hbase
      exact .inr ⟨_, List.mem_singleton.1 hact⟩
    · split at hbase
      · cases hbase
        exact .inl (List.mem_singleton.1 hact)
      · cases hbase
  cases h
  refine declares_constructor ?_
  have hparameters : RegistersAll ConstructorDraft.dependencies ConstructorStep.run
      (ps.map fun p => .plain (.parameter p.1 p.2)) (ps.map Prod.snd) :=
    registersAll_parameters fun _ _ => ⟨rfl, fun _ _ => rfl⟩
  have hlast : RegistersAll ConstructorDraft.dependencies ConstructorStep.run
      [.plain (.attributes attributes), .plain (.bodyWith (s.lineCalls d.body))] (ts ++ []) :=
    .cons (registers_constructor_attributes hcollects) (.single ⟨rfl, fun _ _ => rfl⟩)
  have hall := (((hparameters.append_silent
    (registersAll_silent access.toList .modifier fun _ => ⟨rfl, fun _ _ => rfl⟩)).append_silent
    (registersAll_silent d.doc.toList .doc fun _ => ⟨rfl, fun _ _ => rfl⟩)).append_silent
    hbase').append hlast
  rwa [List.append_nil] at hall

variable {kind : DeclarationKind}

/-- A part of a declaration with the given type texts. -/
abbrev LowersMember (s : Scope) (call : Except ManifestError (Call (DeclarationStep kind)))
    (qs : List Quoted) : Prop :=
  Lowers s Draft.dependencies DeclarationStep.run call qs

/-- The call for a method records what its type texts mean. -/
lemma lowers_methodCall (d : MethodEntry) :
    LowersMember s (s.methodCall d : Except _ (Call (DeclarationStep kind))) d.typeTexts := by
  intro c h
  simp only [Scope.methodCall, bind_eq_ok_iff] at h
  obtain ⟨returns, hreturns, ps, hps, modifiers, -, attributes, hattributes, h⟩ := h
  obtain ⟨ts, hts, hcollects⟩ := collects_attributeCalls hattributes
  have hmeans : s.Means d.returns.toList returns.toList := forall₂_of_option_mapM hreturns
  refine ⟨returns.toList ++ ps.map Prod.snd ++ ts,
    (hmeans.append (means_parameters hps)).append hts, ?_⟩
  cases h
  refine declares_method ?_
  have hresult : RegistersAll MethodDraft.dependencies MethodStep.run
      (returns.toList.map fun t => .plain (.returns t)) returns.toList := by
    cases returns with
    | none => exact .nil
    | some t => exact .single ⟨rfl, fun _ _ => rfl⟩
  have hparameters : RegistersAll MethodDraft.dependencies MethodStep.run
      (ps.map fun p => .plain (.parameter p.1 p.2)) (ps.map Prod.snd) :=
    registersAll_parameters fun _ _ => ⟨rfl, fun _ _ => rfl⟩
  exact (((((hresult.append hparameters).append_silent
    (registersAll_silent modifiers .modifier fun _ => ⟨rfl, fun _ _ => rfl⟩)).append_silent
    (registersAll_silent d.doc.toList .doc fun _ => ⟨rfl, fun _ _ => rfl⟩)).append
    (.single (registers_method_attributes hcollects))).append_silent
    (registersAll_silent d.body.toList (fun lines => .bodyWith (s.lineCalls lines))
      fun _ => ⟨rfl, fun _ _ => rfl⟩))

/-- A plan for parts with the given type texts. -/
inductive LowersAll (s : Scope) : Plan kind → List Quoted → Prop where
  | nil : LowersAll s [] []
  | cons {call plan qs qs'} :
    LowersMember s call qs →
    LowersAll s plan qs' →
    LowersAll s (call :: plan) (qs ++ qs')

/-- A plan after another one has the type texts of that one and then its own. -/
lemma LowersAll.append {plan plan' : Plan kind} {qs qs'} (h : LowersAll s plan qs)
    (h' : LowersAll s plan' qs') : LowersAll s (plan ++ plan') (qs ++ qs') := by
  induction h with
  | nil => exact h'
  | cons hc _ ih =>
    rw [List.append_assoc]
    exact .cons hc ih

/-- A plan of one part has the type texts of the part. -/
lemma LowersAll.single {call : Except ManifestError (Call (DeclarationStep kind))} {qs}
    (h : LowersMember s call qs) : LowersAll s [call] qs := by
  have := LowersAll.cons h .nil
  rwa [List.append_nil] at this

/-- A plan for several parts of one sort. -/
lemma LowersAll.map {β : Type} {f : β → Except ManifestError (Call (DeclarationStep kind))}
    {texts : β → List Quoted} (h : ∀ x, LowersMember s (f x) (texts x)) (xs : List β) :
    LowersAll s (xs.map f) (xs.flatMap texts) := by
  induction xs with
  | nil => exact .nil
  | cons x xs ih => exact .cons (h x) ih

/-- A plan that succeeds records what its type texts mean. -/
lemma LowersAll.run {plan : Plan kind} {qs d d'} (h : LowersAll s plan qs)
    (hrun : plan.run d = .ok d') :
    ∃ ts, s.Means qs ts ∧ d'.dependencies = d.dependencies.addAll ts := by
  induction h generalizing d with
  | nil =>
    cases hrun
    exact ⟨[], .nil, rfl⟩
  | @cons call plan qs qs' hc _ ih =>
    cases call with
    | error e => cases hrun
    | ok c =>
      obtain ⟨ts, hts, hregisters⟩ := hc c rfl
      rw [Plan.run] at hrun
      split at hrun
      case h_2 => cases hrun
      case h_1 hr =>
        obtain ⟨hsame, hstep⟩ := Call.run_of_ok hr
        obtain ⟨us, hus, hd⟩ := ih hrun
        refine ⟨ts ++ us, hts.append hus, ?_⟩
        rw [hd, hsame, hregisters.records d hstep, Dependencies.addAll_append]

/-- A plan for parts without type texts. -/
lemma LowersAll.silent {β : Type} {f : β → Except ManifestError (Call (DeclarationStep kind))}
    (h : ∀ x, LowersMember s (f x) []) (xs : List β) : LowersAll s (xs.map f) [] := by
  induction xs with
  | nil => exact .nil
  | cons x xs ih => exact .cons (h x) ih

/-- A plan for type texts. -/
lemma LowersAll.quoted {f : Quoted → Except ManifestError (Call (DeclarationStep kind))}
    (h : ∀ q, LowersMember s (f q) [q]) (qs : List Quoted) : LowersAll s (qs.map f) qs := by
  induction qs with
  | nil => exact .nil
  | cons q qs ih => exact .cons (h q) ih

/-- A part whose call is made of the type that its text means. -/
lemma lowers_of_resolve {q} {call : TypeRef → Call (DeclarationStep kind)}
    (h : ∀ type, Declares (call type) [type]) : LowersMember s ((s.resolve q).map call) [q] := by
  intro c hc
  cases hr : s.resolve q with
  | error e =>
    rw [hr] at hc
    cases hc
  | ok type =>
    rw [hr] at hc
    cases hc
    exact ⟨[type], .single hr, h type⟩

/-- What stands above a declaration has the type texts of its attributes. -/
lemma lowersAll_headPlan {doc modifiers attributes} :
    LowersAll s (s.headPlan doc modifiers attributes : Plan kind)
      (attributes.map AttributeEntry.type) := by
  have hdoc : ∀ text : String, LowersMember s
      (.ok (.plain (.doc text)) : Except ManifestError (Call (DeclarationStep kind))) [] := by
    rintro text c ⟨⟩
    exact ⟨[], .nil, rfl, fun _ _ => rfl⟩
  have hmodifier : ∀ q, LowersMember s
      ((s.modifier q).map fun m => (.plain (.modifier m) : Call (DeclarationStep kind))) [] := by
    intro q c hc
    cases hm : s.modifier q with
    | error e =>
      rw [hm] at hc
      cases hc
    | ok m =>
      rw [hm] at hc
      cases hc
      exact ⟨[], .nil, rfl, fun _ _ => rfl⟩
  have hattributes : LowersMember s ((s.attributeCalls attributes).map fun calls =>
      (.plain (.attributes calls) : Call (DeclarationStep kind)))
      (attributes.map AttributeEntry.type) := by
    intro c hc
    cases ha : s.attributeCalls attributes with
    | error e =>
      rw [ha] at hc
      cases hc
    | ok calls =>
      rw [ha] at hc
      cases hc
      obtain ⟨ts, hts, hcollects⟩ := collects_attributeCalls ha
      exact ⟨ts, hts, declares_attributes hcollects⟩
  exact ((LowersAll.silent hdoc _).append (LowersAll.silent hmodifier _)).append
    (.single hattributes)

/-- The call for properties has their type texts. -/
lemma lowers_propertiesCall {inInterface} {ds : List PropertyEntry} :
    LowersMember s (s.propertiesCall inInterface ds : Except _ (Call (DeclarationStep kind)))
      (ds.flatMap PropertyEntry.typeTexts) := by
  intro c hc
  unfold Scope.propertiesCall at hc
  cases hd : ds.mapM (s.propertyCall inInterface) with
  | error e =>
    rw [hd] at hc
    cases hc
  | ok calls =>
    rw [hd] at hc
    cases hc
    obtain ⟨ts, hts, hcalls⟩ := registersAll_of_mapM lowers_propertyCall hd
    exact ⟨ts, hts, declares_properties hcalls⟩

/-- The call for a base type has its text. -/
lemma lowers_extendCall (q : Quoted) :
    LowersMember s (s.extendCall q : Except _ (Call (DeclarationStep kind))) [q] :=
  lowers_of_resolve fun _ => declares_extend

/-- The call for an interface has its text. -/
lemma lowers_implementCall {allowed : kind ≠ .interfaceDecl} (q : Quoted) :
    LowersMember s (s.implementCall allowed q) [q] :=
  lowers_of_resolve fun _ => declares_implement

/-- The plan of a class has the type texts of the class. -/
lemma lowersAll_classPlan {d} :
    LowersAll s (s.classPlan d) (Definition.ofClass d).typeTexts := by
  simp only [Scope.classPlan, Definition.typeTexts]
  refine .append (.append (.append (.append (.append ?_ ?_) ?_) ?_) ?_) ?_
  · exact lowersAll_headPlan
  · exact .quoted lowers_extendCall _
  · exact .quoted lowers_implementCall _
  · exact .single lowers_propertiesCall
  · exact .map lowers_constructorCall _
  · exact .map lowers_methodCall _

/-- The plan of an interface has the type texts of the interface. -/
lemma lowersAll_interfacePlan {d} :
    LowersAll s (s.interfacePlan d) (Definition.ofInterface d).typeTexts := by
  simp only [Scope.interfacePlan, Definition.typeTexts]
  refine .append (.append (.append ?_ ?_) ?_) ?_
  · exact lowersAll_headPlan
  · exact .quoted lowers_extendCall _
  · exact .single lowers_propertiesCall
  · exact .map lowers_methodCall _

/-- The plan of a record has the type texts of the record. -/
lemma lowersAll_recordPlan {d} :
    LowersAll s (s.recordPlan d) (Definition.ofRecord d).typeTexts := by
  have hparameter : ∀ p : ParameterEntry, LowersMember s ((s.resolve p.type).map fun type =>
      .plain (.parameter p.name.value type)) [p.type] := fun p =>
    lowers_of_resolve fun _ => ⟨rfl, fun _ _ => rfl⟩
  simp only [Scope.recordPlan, Definition.typeTexts]
  refine .append (.append (.append (.append (.append ?_ ?_) ?_) ?_) ?_) ?_
  · exact lowersAll_headPlan
  · rw [List.map_eq_flatMap (f := ParameterEntry.type)]
    exact .map hparameter _
  · exact .quoted lowers_extendCall _
  · exact .quoted lowers_implementCall _
  · exact .single lowers_propertiesCall
  · exact .map lowers_methodCall _

/-- A declaration that is built needs what its type texts mean. -/
lemma means_of_draft {space d a} (h : draft s space d = .ok a) :
    ∃ ts, s.Means d.typeTexts ts ∧ a.dependencies = (Dependencies.new space).addAll ts := by
  have of_plan : ∀ {kind} {plan : Plan kind} {name qs}, LowersAll s plan qs →
      (plan.run (.new kind name space)).map (AnyDraft.mk kind) = .ok a →
      ∃ ts, s.Means qs ts ∧ a.dependencies = (Dependencies.new space).addAll ts := by
    intro kind plan name qs hplan h
    cases hrun : plan.run (.new kind name space) with
    | error e =>
      rw [hrun] at h
      cases h
    | ok d =>
      rw [hrun] at h
      cases h
      exact hplan.run hrun
  cases d with
  | ofClass d => exact of_plan lowersAll_classPlan h
  | ofInterface d => exact of_plan lowersAll_interfacePlan h
  | ofRecord d => exact of_plan lowersAll_recordPlan h

/-- A declaration is built in the namespace that it is to stand in. -/
lemma space_of_draft {space d a} (h : draft s space d = .ok a) : a.space = space := by
  obtain ⟨ts, -, hdeps⟩ := means_of_draft h
  show a.dependencies.owner = space
  rw [hdeps]
  exact (Dependencies.addAll_spec ts).1

/-- The namespaces that a declaration of a valid manifest needs are clean, and they are those of
the types that its texts mean. -/
lemma namespaces_of_draft {m : Manifest} {d a} (hm : Checked m)
    (h : draft (.ofManifest m) m.space d = .ok a) :
    a.space = m.space ∧ (∀ x ∈ a.dependencies.namespaces, Dependencies.Clean x) ∧
      ∀ space, space ∈ a.dependencies.namespaces ↔
        space ≠ m.space ∧ ∃ q ∈ d.typeTexts, ∃ t, (Scope.ofManifest m).resolve q = .ok t ∧
          t.Imports space := by
  obtain ⟨ts, hts, hdeps⟩ := means_of_draft h
  obtain ⟨-, -, hmem⟩ :=
    Dependencies.addAll_spec (r := Dependencies.new m.space) ts
  have hneeds : ∀ space, space ∈ a.dependencies.namespaces ↔
      space ≠ m.space ∧ ∃ q ∈ d.typeTexts, ∃ t, (Scope.ofManifest m).resolve q = .ok t ∧
        t.Imports space := by
    intro space
    rw [hdeps, hmem, ← exists_mem_iff_of_forall₂ hts]
    simp [Dependencies.new]
  refine ⟨space_of_draft h, fun x hx => ?_, hneeds⟩
  obtain ⟨-, q, -, t, ht, n, hn, -, ho⟩ := (hneeds x).1 hx
  exact ((hm.proper ht n hn).origin x ho).clean

/-- A file that is built: its first declaration gives the namespace, and its usings are the sorted
needs of all. -/
lemma file_of_build {drafts style indent f}
    (h : FileDraft.build ⟨drafts, style, indent⟩ = .ok f) :
    ∃ a rest, drafts = a :: rest ∧
      f = ⟨((drafts.map AnyDraft.dependencies).foldl Dependencies.union (.new a.space)).sorted,
        if a.space.isEmpty then none else some a.space, style,
        FileDraft.built ⟨drafts, style, indent⟩⟩ := by
  cases drafts with
  | nil => cases h
  | cons a rest =>
    cases h
    exact ⟨a, rest, rfl, rfl⟩

/-- The declarations of a file that is built from a manifest. -/
lemma drafts_of_file {m : Manifest} {f} (h : m.file = .ok f) :
    ∃ drafts, List.Forall₂ (fun d a => draft (.ofManifest m) m.space d = .ok a) m.definitions
        drafts ∧ FileDraft.build ⟨drafts, m.style, .standard⟩ = .ok f := by
  simp only [file, project, bind_eq_ok_iff] at h
  obtain ⟨p, ⟨drafts, hdrafts, hp⟩, hbuild⟩ := h
  cases hp
  exact ⟨drafts, mapM_eq_ok_iff.1 hdrafts, mapError_eq_ok_iff.1 hbuild⟩

/-- The usings of a manifest that has been checked are the namespaces of the types that are written
in it, its own apart, in strict order. -/
lemma usings_of_file {m : Manifest} {f} (hm : Checked m) (hf : m.file = .ok f) :
    (∀ space, space ∈ f.usings ↔
      space ≠ m.space ∧ ∃ d ∈ m.definitions, ∃ q ∈ d.typeTexts, ∃ t,
        (Scope.ofManifest m).resolve q = .ok t ∧ t.Imports space) ∧
    f.usings.Pairwise Dependencies.UsingLt := by
  obtain ⟨drafts, hdrafts, hbuild⟩ := drafts_of_file hf
  obtain ⟨a, rest, hcons, rfl⟩ := file_of_build hbuild
  have hneeds : ∀ a ∈ drafts, ∃ d ∈ m.definitions, draft (.ofManifest m) m.space d = .ok a :=
    fun a ha => exists_of_mem_of_forall₂ hdrafts ha
  have hclean : ∀ r ∈ drafts.map AnyDraft.dependencies, ∀ x ∈ r.namespaces,
      Dependencies.Clean x := by
    intro r hr
    obtain ⟨b, hb, rfl⟩ := List.mem_map.1 hr
    obtain ⟨d, -, hd⟩ := hneeds b hb
    exact (namespaces_of_draft hm hd).2.1
  have hspace : a.space = m.space := by
    obtain ⟨d, -, hd⟩ := hneeds a (hcons ▸ .head _)
    exact (namespaces_of_draft hm hd).1
  obtain ⟨-, hnodup, hmem⟩ := Dependencies.foldl_union_spec (r := .new a.space) hclean
  refine ⟨fun space => ?_, Dependencies.sorted_pairwise (hnodup List.nodup_nil)⟩
  rw [Dependencies.mem_sorted, hmem, hspace]
  -- what some declaration needs is what some type text of some definition means
  have hsome : (∃ r ∈ drafts.map AnyDraft.dependencies, space ∈ r.namespaces) ↔
      ∃ d ∈ m.definitions, ∃ a, draft (.ofManifest m) m.space d = .ok a ∧
        space ∈ a.dependencies.namespaces := by
    rw [← exists_mem_iff_of_forall₂ hdrafts]
    simp
  rw [hsome]
  constructor
  · rintro (h | ⟨hne, d, hd, a, ha, hspace⟩)
    · cases h
    · exact ⟨hne, d, hd, (((namespaces_of_draft hm ha).2.2 space).1 hspace).2⟩
  · rintro ⟨hne, d, hd, h⟩
    obtain ⟨a, ha⟩ := exists_result_of_forall₂ hdrafts hd
    exact .inr ⟨hne, d, hd, a, ha, ((namespaces_of_draft hm ha).2.2 space).2 ⟨hne, h⟩⟩

/-- A valid manifest imports exactly the namespaces of the types that are written in it, its own
apart, and its usings are in strict order. -/
theorem usings_exact {m : Manifest} {f : Code.File} (hv : m.validate = .ok ())
    (hf : m.file = .ok f) :
    (∀ space, space ∈ f.usings ↔
      space ≠ m.space ∧ ∃ d ∈ m.definitions, ∃ q ∈ d.typeTexts, ∃ t,
        (Scope.ofManifest m).resolve q = .ok t ∧ t.Imports space) ∧
    f.usings.Pairwise Dependencies.UsingLt ∧ f.usings.Nodup := by
  obtain ⟨hmem, hpairwise⟩ := usings_of_file (checked_of_validate hv) hf
  exact ⟨hmem, hpairwise, hpairwise.imp Dependencies.UsingLt.ne⟩

/-- A record that holds lists of arrays of a type from elsewhere. -/
def box : RecordEntry where
  name := ⟨"Box", ⟨0, 0⟩⟩
  doc := none
  modifiers := []
  parameters :=
    [⟨⟨"items", ⟨0, 0⟩⟩, ⟨"List<Widget[]>", ⟨0, 0⟩⟩⟩, ⟨⟨"next", ⟨0, 0⟩⟩, ⟨"Box", ⟨0, 0⟩⟩⟩]
  base := none
  interfaces := []
  attributes := []
  properties := []
  methods := []

/-- A manifest with one record. -/
def boxes : Manifest where
  space := "App"
  style := .file
  types := ⟨[("Widget", ⟨some "Zeta.Ui", .classType, none⟩)], by decide⟩
  classes := []
  interfaces := []
  records := [box]
  document := ⟨"", ""⟩

/-- What boxes hold is imported, and their own namespace is not. -/
theorem usings_exact_boxes :
    ∃ f, boxes.validate = .ok () ∧ boxes.file = .ok f ∧ "Zeta.Ui" ∈ f.usings ∧
      "App" ∉ f.usings ∧ f.usings.Pairwise Dependencies.UsingLt := by
  have hv : boxes.validate = .ok () := by decide +kernel
  have hok : boxes.file.isOk = true := by decide +kernel
  cases hf : boxes.file with
  | error e =>
    rw [hf] at hok
    cases hok
  | ok f =>
    obtain ⟨hmem, hpairwise, -⟩ := usings_exact hv hf
    refine ⟨f, hv, rfl, (hmem _).2 ⟨by decide, ?_⟩, fun h => ((hmem _).1 h).1 rfl, hpairwise⟩
    have hd : .ofRecord box ∈ boxes.definitions := by simp [definitions, boxes]
    refine ⟨.ofRecord box, hd, ⟨"List<Widget[]>", ⟨0, 0⟩⟩, by decide, ?_⟩
    have hall : ((Scope.ofManifest boxes).resolve ⟨"List<Widget[]>", ⟨0, 0⟩⟩).toOption.any
        (fun t => t.nodes.any fun n => !n.isBuiltIn && n.origin == some "Zeta.Ui") = true := by
      decide +kernel
    cases hr : (Scope.ofManifest boxes).resolve ⟨"List<Widget[]>", ⟨0, 0⟩⟩ with
    | error e =>
      rw [hr] at hall
      cases hall
    | ok t =>
      rw [hr] at hall
      refine ⟨t, rfl, ?_⟩
      simpa [TypeRef.Imports, Except.toOption] using hall

end SharpSmith.Manifest
