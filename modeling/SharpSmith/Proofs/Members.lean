import SharpSmith.Proofs.Atomicity
import SharpSmith.Proofs.Imports
import SharpSmith.Proofs.PropertyRuns

/-!
# What the entries of a manifest build

`Gives` says of an entry of a manifest what is built for it: a parameter, an attribute, a property,
a constructor or a method. The calls that an entry asks for build, when they all succeed, what the
entry gives. Properties, methods and constructors each have a lemma for every part that their calls
put in, in the order of the calls.
-/

namespace SharpSmith

open Manifest

/-- The text of the type that a type text means. -/
def Manifest.Scope.Shows (s : Scope) (q : Quoted) (text : String) : Prop :=
  ∃ t, s.resolve q = .ok t ∧ text = t.display

/-- The expressions that texts are read as. -/
def Expression.ReadAll (texts : List String) (es : List Expression) : Prop :=
  List.Forall₂ (fun text e => Expression.parse text = .ok e) texts es

/-- The statements that the lines of a body are read as. -/
def Statement.ReadLines (lines : List Quoted) (body : List Statement) : Prop :=
  List.Forall₂ (fun line s => Statement.parseLine line.value = .ok s) lines body

/-- The visibility that is there without being asked for: everything is public, but members of an
interface have none. -/
def DeclarationKind.visibility? : DeclarationKind → Option Modifier
  | .classDecl | .recordDecl => some .publicAccess
  | .interfaceDecl => none

/-- What stands before a member that can be asked for a visibility and for no other modifier. -/
inductive Modifiers.Access (kind : DeclarationKind) : Option Quoted → List Modifier → Prop where
  | given {q m} :
    Modifier.ofKeyword? q.value = some m →
    m.isVisibility = true →
    Access kind (some q) [m]
  | usual :
    Access kind .none kind.visibility?.toList

/-- The modifiers that words ask for, with a visibility at the start. -/
def Modifiers.Written (start : Option Modifier) (words : List Quoted) (ms : List Modifier) : Prop :=
  ∃ asked, List.Forall₂ (fun q m => Modifier.ofKeyword? q.value = some m) words asked ∧
    Modifiers.AskedFor start asked ms

/-- The accessors that are written when some are asked for: a getter if it is among them or there
is no setter, then the last setter. -/
def Accessor.written (asked : List Accessor) : List Accessor :=
  let setter? := (asked.filter Accessor.isSetter).getLast?
  (if .get ∈ asked ∨ setter? = none then [.get] else []) ++ setter?.toList

/-- The accessors that a property is asked to have: those of its list, white space around them
apart, or without a list a getter and, outside of interfaces, a setter. -/
inductive Accessor.Asked (kind : DeclarationKind) :
    Option (List Quoted) → List Accessor → Prop where
  | listed {qs as} :
    List.Forall₂ (fun q a => ofText? (String.ofList (Text.trim q.value.toList)) = some a) qs as →
    Asked kind (some qs) as
  | getter :
    kind = .interfaceDecl →
    Asked kind none [.get]
  | both :
    kind ≠ .interfaceDecl →
    Asked kind none [.get, .set]

/-- A parameter has the name and the type that its entry gives. -/
structure ParameterEntry.Gives (s : Scope) (e : ParameterEntry) (p : Code.Parameter) : Prop where
  name : p.name = e.name.value
  type : s.Shows e.type p.type

/-- An attribute is applied under its short name, with one argument for each text. -/
structure AttributeEntry.Gives (s : Scope) (e : AttributeEntry) (a : Code.Attribute) : Prop where
  name : ∃ t, s.resolve e.type = .ok t ∧ a.name = Identifier.attributeName t.name
  args : Expression.ReadAll (e.args.map Quoted.value) a.args

/-- A property of a declaration of the given kind has the visibility and the accessors that its
entry asks for, and with them what the entry writes above it. -/
structure PropertyEntry.Gives (s : Scope) (kind : DeclarationKind) (e : PropertyEntry)
    (p : Code.Property) : Prop where
  name : p.name = e.name.value
  type : s.Shows e.type p.type
  doc : p.doc = e.doc
  attributes : List.Forall₂ (AttributeEntry.Gives s) e.attributes p.attributes
  modifiers : Modifiers.Access kind e.access p.modifiers
  accessors : ∃ as, Accessor.Asked kind e.accessors as ∧ p.accessors = Accessor.written as

/-- What a constructor passes on: nothing when no base call is asked for, all its parameters by
name when they are to be forwarded, and else the arguments that are given. -/
inductive BaseEntry.Gives (parameters : List Code.Parameter) :
    Option BaseEntry → Option (List Expression) → Prop where
  | none : Gives parameters none none
  | forward : Gives parameters (some (.keyword "forward")) (some (parameters.map fun p => ⟨p.name⟩))
  | args {texts es} :
    Expression.ReadAll texts es →
    Gives parameters (some (.args texts)) (some es)

/-- A constructor goes by the name of its class, and its body is made of the lines of its entry. -/
structure ConstructorEntry.Gives (s : Scope) (owner : String) (e : ConstructorEntry)
    (k : Code.Constructor) : Prop where
  name : k.name = owner
  doc : k.doc = e.doc
  modifiers : Modifiers.Access .classDecl e.access k.modifiers
  parameters : List.Forall₂ (ParameterEntry.Gives s) e.parameters k.parameters
  attributes : List.Forall₂ (AttributeEntry.Gives s) e.attributes k.attributes
  base : BaseEntry.Gives k.parameters e.base k.baseArgs
  body : Statement.ReadLines e.body k.body

/-- Whether a method is asked to be abstract. -/
def MethodEntry.IsAbstract (e : MethodEntry) : Prop :=
  ∃ q ∈ e.modifiers, q.value = "abstract"

/-- A method has a body if its entry has one, or if it must: outside of interfaces, unless it is
abstract. -/
structure MethodEntry.Gives (s : Scope) (kind : DeclarationKind) (e : MethodEntry)
    (m : Code.Method) : Prop where
  name : m.name = e.name.value
  doc : m.doc = e.doc
  returns : (∀ q ∈ e.returns, s.Shows q m.returns) ∧ (e.returns = none → m.returns = "void")
  parameters : List.Forall₂ (ParameterEntry.Gives s) e.parameters m.parameters
  attributes : List.Forall₂ (AttributeEntry.Gives s) e.attributes m.attributes
  modifiers : Modifiers.Written kind.visibility? e.modifiers m.modifiers
  isAbstract : .abstractMember ∈ m.modifiers ↔ e.IsAbstract
  hasBody : m.body.isSome ↔ e.body.isSome ∨ kind ≠ .interfaceDecl ∧ ¬e.IsAbstract
  body : ∀ body ∈ m.body, Statement.ReadLines (e.body.getD []) body

/-- A call that only sets an accessor or a modifier of a property. -/
def Build.HandleStep.IsAccess (act : Build.HandleStep) : Prop :=
  (∃ a, act = .accessor a) ∨ ∃ m, act = .modifier m

namespace Manifest

open Build

variable {s : Scope}

/-- Texts that are all read as expressions stand side by side with these. -/
lemma reads_of_parseAll {texts es} (h : Expression.parseAll texts = .ok es) :
    Expression.ReadAll texts es := by
  induction texts generalizing es with
  | nil =>
    cases h
    exact .nil
  | cons text texts ih =>
    simp only [Expression.parseAll, bind_eq_ok_iff] at h
    obtain ⟨e, he, es, hes, h⟩ := h
    cases h
    exact .cons he (ih hes)

/-- The calls that entries ask for: none of them is caught, and each does what its entry says. -/
def Asks {α β : Type} (Q : β → α → Prop) (xs : List β) (calls : List (Call α)) : Prop :=
  List.Forall₂ (fun x c => c.caught = false ∧ Q x c.act) xs calls

/-- None of the calls that entries ask for is caught. -/
lemma Asks.strict {α β : Type} {Q : β → α → Prop} {xs calls} (h : Asks Q xs calls) :
    ∀ c ∈ calls, c.caught = false := by
  induction h with
  | nil => exact nofun
  | cons hc _ ih => exact List.forall_mem_cons.2 ⟨hc.1, ih⟩

/-- The calls that entries ask for stand side by side with the entries. -/
lemma Asks.acts {α β : Type} {Q : β → α → Prop} {xs calls} (h : Asks Q xs calls) :
    List.Forall₂ Q xs (calls.map Call.act) :=
  List.forall₂_map_right_iff.2 (h.imp fun _ _ hc => hc.2)

/-- Calls that are found one by one are asked for if each of them is. -/
lemma asks_of_mapM {α β : Type} {Q : β → α → Prop} {f : β → Except ManifestError (Call α)}
    {xs calls} (h : xs.mapM f = .ok calls)
    (hf : ∀ x c, f x = .ok c → c.caught = false ∧ Q x c.act) : Asks Q xs calls :=
  (mapM_eq_ok_iff.1 h).imp hf

/-- The calls for attributes apply types that were resolved to the texts of arguments. -/
lemma asks_attributeCalls {ds : List AttributeEntry} {calls} (h : s.attributeCalls ds = .ok calls) :
    Asks (fun d act => ∃ t, s.resolve d.type = .ok t ∧
      act = if d.args.isEmpty then .addBare t else .add t (d.args.map Quoted.value)) ds calls := by
  apply asks_of_mapM h
  intro d c hc
  obtain ⟨t, ht, hc⟩ := bind_eq_ok_iff.1 hc
  cases hc
  exact ⟨rfl, t, ht, rfl⟩

/-- Attributes that are collected are what their entries give. -/
lemma collect_gives {ds : List AttributeEntry} {calls needs} (h : s.attributeCalls ds = .ok calls)
    (hok : (AttributeStep.collect calls needs).result = .ok ()) :
    List.Forall₂ (AttributeEntry.Gives s) ds
      (AttributeStep.collect calls needs).state.attributes := by
  have hasks := asks_attributeCalls h
  have hruns := Call.runs_of_runAll hasks.strict hok
  obtain ⟨as, has, hstate⟩ := Runs.append (R := AttributeEntry.Gives s)
    AttributesDraft.attributes hasks.acts hruns <| by
      rintro e act d ⟨t, ht, rfl⟩ hact
      by_cases hargs : e.args.isEmpty = true
      · rw [if_pos hargs]
        refine ⟨_, ⟨⟨t, ht, rfl⟩, ?_⟩, rfl⟩
        rw [List.isEmpty_iff.1 hargs]
        exact .nil
      · rw [if_neg hargs] at hact ⊢
        rw [AttributeStep.run] at hact ⊢
        cases hparse : Expression.parseAll (e.args.map Quoted.value) with
        | error f =>
          rw [hparse] at hact
          cases hact
        | ok es => exact ⟨_, ⟨⟨t, ht, rfl⟩, reads_of_parseAll hparse⟩, rfl⟩
  rw [AttributeStep.collect, hstate]
  exact has

/-- Attributes that are collected for something are put there all together. -/
lemma attributes_give {σ : Type} {put : AttributesDraft → σ} {before : σ}
    {ds : List AttributeEntry} {calls needs} (h : s.attributeCalls ds = .ok calls)
    (hok : (Run.commit put before (AttributeStep.collect calls needs)).result = .ok ()) :
    ∃ added, List.Forall₂ (AttributeEntry.Gives s) ds added.attributes ∧
      (Run.commit put before (AttributeStep.collect calls needs)).state = put added := by
  obtain ⟨hstate, hcollect⟩ := Run.commit_of_ok hok
  exact ⟨_, collect_gives h hcollect, hstate⟩

/-- Lines that are written into a body are read as the statements that they add. -/
lemma lineCalls_read {lines : List Quoted} {body : List Statement}
    (hok : (Call.runAll BodyStep.run (s.lineCalls lines) body).result = .ok ()) :
    ∃ added, Statement.ReadLines lines added ∧
      (Call.runAll BodyStep.run (s.lineCalls lines) body).state = body ++ added := by
  have hasks : Asks (fun line act => act = .line line.value) lines (s.lineCalls lines) := by
    apply List.forall₂_map_right_iff.2
    exact List.forall₂_same.2 fun _ _ => ⟨rfl, rfl⟩
  have hruns := Call.runs_of_runAll hasks.strict hok
  apply Runs.append id hasks.acts hruns
  rintro line act body rfl hact
  rw [BodyStep.run, BodyStep.addLine] at hact ⊢
  cases hparse : Statement.parseLine line.value with
  | error e =>
    rw [hparse] at hact
    cases hact
  | ok statement => exact ⟨statement, rfl, rfl⟩

/-- The parameters that are handed to calls stand beside the entries that ask for them. -/
lemma asked_parameters {α : Type} {ds : List ParameterEntry} {ps} (act : String → TypeRef → α)
    (h : s.parameters ds = .ok ps) :
    List.Forall₂ (fun d a => ∃ t, s.resolve d.type = .ok t ∧ a = act d.name.value t) ds
      (ps.map fun p => act p.1 p.2) := by
  apply List.forall₂_map_right_iff.2
  apply (mapM_eq_ok_iff.1 h).imp
  intro d p hp
  obtain ⟨t, ht, hp⟩ := bind_eq_ok_iff.1 hp
  cases hp
  exact ⟨t, ht, rfl⟩

/-- A word that is read as a modifier is its keyword. -/
lemma modifier_means {q : Quoted} {m} (h : s.modifier q = .ok m) :
    Modifier.ofKeyword? q.value = some m := by
  rw [Scope.modifier] at h
  split at h
  case h_1 hword =>
    cases h
    exact hword
  case h_2 => cases h

/-- The modifiers that are handed to calls stand beside the words that ask for them. -/
lemma asked_modifiers {α : Type} {qs : List Quoted} {ms} (act : Modifier → α)
    (h : qs.mapM s.modifier = .ok ms) :
    List.Forall₂ (fun q a => ∃ m, Modifier.ofKeyword? q.value = some m ∧ a = act m) qs
      (ms.map act) := by
  apply List.forall₂_map_right_iff.2
  exact (mapM_eq_ok_iff.1 h).imp fun q m hm => ⟨m, modifier_means hm, rfl⟩

/-- Accessors and modifiers leave the rest of a property as it is. -/
lemma access_rest {acts : List HandleStep} {o o' : OpenProperty} (h : Runs HandleStep.run acts o o')
    (hacts : ∀ act ∈ acts, act.IsAccess) :
    ∃ modifiers getter setter, o' = { o with property := { o.property with
      modifiers := modifiers, getter := getter, setter := setter } } := by
  induction h with
  | nil => exact ⟨_, _, _, rfl⟩
  | cons _ _ ih =>
    rw [List.forall_mem_cons] at hacts
    obtain ⟨modifiers, getter, setter, rfl⟩ := ih hacts.2
    obtain ⟨a, rfl⟩ | ⟨m, rfl⟩ := hacts.1
    · rw [HandleStep.run, PropertyDraft.access]
      split
      · exact ⟨_, _, _, rfl⟩
      · exact ⟨_, _, _, rfl⟩
    · exact ⟨_, _, _, rfl⟩

/-- A property that is asked for documentation has it. -/
lemma property_doc {text? : Option String} {o o' : OpenProperty}
    (h : Runs HandleStep.run (text?.toList.map .doc) o o') (ho : o.property.doc = none) :
    o' = { o with property := { o.property with doc := text? } } := by
  apply h.option (G := fun text? o' => o' = { o with property := { o.property with doc := text? } })
  · rw [← ho]
  · exact fun _ _ => rfl

/-- What a list of accessors is read as, or what there is without one. -/
lemma accessors_asked {kind : DeclarationKind} {qs? : Option (List Quoted)} {as}
    (h : s.accessors (decide (kind = .interfaceDecl)) qs? = .ok as) :
    Accessor.Asked kind qs? as := by
  cases qs? with
  | some qs =>
    refine .listed ((mapM_eq_ok_iff.1 h).imp fun q a ha => ?_)
    rw [Scope.accessor] at ha
    split at ha
    case h_1 hword =>
      cases ha
      exact hword
    case h_2 => cases ha
  | none =>
    rw [Scope.accessors, Except.ok.injEq] at h
    by_cases hk : kind = .interfaceDecl
    · rw [if_pos (decide_eq_true hk)] at h
      exact h ▸ .getter hk
    · rw [if_neg (by simpa using hk)] at h
      exact h ▸ .both hk

/-- A word for a visibility means a modifier that is one, and without it there is the usual one. -/
lemma access_asked {kind : DeclarationKind} {word : Option Quoted} {access}
    (h : word.mapM s.visibility = .ok access) :
    (∀ m ∈ access, m.isVisibility = true) ∧
      Modifiers.Access kind word (access.or kind.visibility?).toList := by
  cases word with
  | none =>
    cases h
    exact ⟨nofun, .usual⟩
  | some q =>
    obtain ⟨m, hm, h⟩ := bind_eq_ok_iff.1 h
    cases h
    obtain ⟨hword, hvisibility⟩ : Modifier.ofKeyword? q.value = some m ∧ m.isVisibility = true := by
      rw [Scope.visibility] at hm
      split at hm
      case h_1 hword =>
        cases hm
        simpa [Option.filter_eq_some_iff] using hword
      case h_2 => cases hm
    refine ⟨?_, .given hword hvisibility⟩
    rintro _ ⟨⟩
    exact hvisibility

/-- A property that was opened and called on has the modifiers and accessors that were asked for:
they are read off its history. -/
lemma property_access {name type start needs} {acts : List HandleStep} {o : OpenProperty}
    (hstart : ∀ m ∈ start, m.isVisibility = true)
    (h : Runs HandleStep.run acts ⟨needs, .new name type start⟩ o) :
    Modifiers.AskedFor start (acts.filterMap HandleStep.modifier?) o.property.modifiers.toList ∧
      o.property.accessors = Accessor.written (acts.filterMap HandleStep.accessor?) := by
  have hmatches := (PropertyHistory.matches_new name type hstart).runs h
  have haccessors := hmatches.build.accessors
  rw [PropertyHistory.setter?, PropertyHistory.accessors_more] at haccessors
  have hmodifiers := hmatches.modifiers
  rw [PropertyHistory.modifiers_more] at hmodifiers
  exact ⟨hmodifiers, haccessors⟩

/-- The calls for a property: visibilities, accessors, its documentation and its attributes. -/
def propertyActs (ms : List Modifier) (as : List Accessor) (doc : Option String)
    (attributes : List (Call AttributeStep)) : List HandleStep :=
  ms.map .modifier ++ as.map .accessor ++ doc.toList.map .doc ++ [.attributes attributes]

/-- The calls for a property ask for its accessors and modifiers as they are listed. -/
lemma asked_propertyActs {ms as doc attributes} :
    (propertyActs ms as doc attributes).filterMap HandleStep.modifier? = ms ∧
      (propertyActs ms as doc attributes).filterMap HandleStep.accessor? = as := by
  cases doc <;>
    simp [propertyActs, List.filterMap_map, Function.comp_def, HandleStep.modifier?,
      HandleStep.accessor?]

/-- A property that is opened with a visibility is in the end what its entry gives, when it is asked
for visibilities of which the last one is that of the entry. -/
lemma property_gives {kind : DeclarationKind} {d : PropertyEntry} {type start attributes needs}
    {as : List Accessor} {details : List (Call HandleStep)} (ms : List Modifier)
    (htype : s.resolve d.type = .ok type)
    (hattributes : s.attributeCalls d.attributes = .ok attributes)
    (hstart : ∀ m ∈ start, m.isVisibility = true) (hms : ∀ m ∈ ms, m.isVisibility = true)
    (haccess : Modifiers.Access kind d.access (Modifier.visibility? start ms).toList)
    (haccessors : Accessor.Asked kind d.accessors as)
    (hdetails : details =
      ms.map (fun m => Call.plain (HandleStep.modifier m)) ++
        as.map (fun a => Call.plain (HandleStep.accessor a)) ++
        d.doc.toList.map (fun text => Call.plain (HandleStep.doc text)) ++
        [Call.plain (HandleStep.attributes attributes)])
    {r} (hr : r = Call.runAll HandleStep.run details ⟨needs, .new d.name.value type start⟩)
    (hok : r.result = .ok ()) : PropertyEntry.Gives s kind d r.state.property.build := by
  have hstrict : ∀ c ∈ details, c.caught = false := by
    rw [hdetails]
    simp only [List.forall_mem_append, List.forall_mem_map, List.forall_mem_singleton]
    exact ⟨⟨⟨fun _ _ => rfl, fun _ _ => rfl⟩, fun _ _ => rfl⟩, rfl⟩
  rw [hr] at hok
  have hruns := Call.runs_of_runAll hstrict hok
  rw [← hr, hdetails, List.map_append, List.map_append, List.map_append, List.map_map, List.map_map,
    List.map_map] at hruns
  change Runs HandleStep.run (propertyActs ms as d.doc attributes) _ _ at hruns
  obtain ⟨hmodifiers, hwritten⟩ := property_access hstart hruns
  rw [asked_propertyActs.1] at hmodifiers
  rw [asked_propertyActs.2] at hwritten
  -- the calls are cut where one part of the entry ends, from the last part back
  obtain ⟨o₂, hruns, hlast⟩ := hruns.cut
  obtain ⟨o₁, hruns, hdoc⟩ := hruns.cut
  have hfirst : ∀ act ∈ ms.map .modifier ++ as.map .accessor, HandleStep.IsAccess act := by
    simp only [List.forall_mem_append, List.forall_mem_map]
    exact ⟨fun m _ => .inr ⟨m, rfl⟩, fun a _ => .inl ⟨a, rfl⟩⟩
  obtain ⟨modifiers, getter, setter, rfl⟩ := access_rest hruns hfirst
  obtain rfl := property_doc hdoc rfl
  obtain ⟨hlastok, hstate⟩ := hlast.single
  obtain ⟨added, hadded, hcommit⟩ := attributes_give hattributes hlastok
  rw [hstate.trans hcommit] at hmodifiers hwritten ⊢
  have hvisibility : modifiers.toList = (Modifier.visibility? start ms).toList :=
    hmodifiers.eq_visibility hms
  rw [← hvisibility] at haccess
  exact ⟨rfl, ⟨type, htype, rfl⟩, rfl, hadded, haccess, as, haccessors, hwritten⟩

/-- The visibility that there is at the start is one. -/
lemma isVisibility_of_start {kind : DeclarationKind} :
    ∀ m ∈ kind.visibility?, m.isVisibility = true := by
  cases kind <;> decide

/-- A call that adds, when it succeeds, the property that an entry gives, to properties that start
with the visibility of their kind of declaration. -/
def AddsProperty (s : Scope) (kind : DeclarationKind) (d : PropertyEntry) (act : PropertyStep) :
    Prop :=
  ∀ draft, draft.visibility = kind.visibility? → (act.run draft).result = .ok () →
    (act.run draft).state.visibility = kind.visibility? ∧
      ∃ p : PropertyDraft, PropertyEntry.Gives s kind d p.build ∧
        (act.run draft).state.properties = draft.properties ++ [p]

/-- The call for a property adds what its entry gives. -/
lemma propertyCall_gives {kind : DeclarationKind} {d : PropertyEntry} {c}
    (h : s.propertyCall (decide (kind = .interfaceDecl)) d = .ok c) :
    c.caught = false ∧ AddsProperty s kind d c.act := by
  simp only [Scope.propertyCall, bind_eq_ok_iff] at h
  obtain ⟨access, haccess, accessors, haccessors, type, htype, attributes, hattributes, h⟩ := h
  cases h
  have hasked := accessors_asked haccessors
  obtain ⟨hvisibility, hgiven⟩ : _ ∧ Modifiers.Access kind d.access _ := access_asked haccess
  refine ⟨rfl, fun draft hdraft => ?_⟩
  rw [Scope.call, Call.placed]
  dsimp only
  -- a private property starts out private, any other one is asked for its visibility
  split
  case h_1 =>
    exact fun hok => ⟨hdraft, _, property_gives [] htype hattributes hvisibility
      (List.forall_mem_nil _) hgiven hasked rfl rfl hok, rfl⟩
  case h_2 m _ =>
    have hm : m.isVisibility = true := hvisibility m rfl
    have hcounts : Modifier.visibility? kind.visibility? [m] = some m :=
      Modifiers.visibility?_toList hvisibility
    rw [Option.some_or, ← hcounts] at hgiven
    rw [PropertyStep.run, hdraft]
    exact fun hok => ⟨hdraft, _, property_gives [m] htype hattributes isVisibility_of_start
      (by simpa using hm) hgiven hasked rfl rfl hok, rfl⟩
  case h_3 =>
    rw [PropertyStep.run, hdraft]
    exact fun hok => ⟨hdraft, _, property_gives [] htype hattributes isVisibility_of_start
      (List.forall_mem_nil _) hgiven hasked rfl rfl hok, rfl⟩

/-- The calls for properties add what their entries give, one after the other. -/
lemma properties_give {kind : DeclarationKind} {ds : List PropertyEntry} {calls}
    {draft : PropertiesDraft} (hdraft : draft.visibility = kind.visibility?)
    (h : ds.mapM (s.propertyCall (decide (kind = .interfaceDecl))) = .ok calls)
    (hok : (Call.runAll PropertyStep.run calls draft).result = .ok ()) :
    ∃ ps : List PropertyDraft,
      List.Forall₂ (fun d p => PropertyEntry.Gives s kind d p.build) ds ps ∧
      (Call.runAll PropertyStep.run calls draft).state.properties = draft.properties ++ ps := by
  have hasks := asks_of_mapM (Q := AddsProperty s kind) h fun _ _ => propertyCall_gives
  have hruns := Call.runs_of_runAll hasks.strict hok
  generalize (Call.runAll PropertyStep.run calls draft).state = draft' at hruns ⊢
  -- each property starts with the visibility that the ones before have left as it was
  have hacts := hasks.acts
  generalize calls.map Call.act = acts at hacts hruns
  clear h hok hasks
  induction hacts generalizing draft with
  | nil =>
    cases hruns
    exact ⟨[], .nil, (List.append_nil _).symm⟩
  | cons hadds _ ih =>
    cases hruns with
    | cons hact hruns =>
      obtain ⟨hkept, p, hp, hadded⟩ := hadds draft hdraft hact
      obtain ⟨ps, hps, hall⟩ := ih hkept hruns
      rw [hadded, List.append_assoc, List.singleton_append] at hall
      exact ⟨p :: ps, .cons hp hps, hall⟩

/-- The modifiers that a method is asked to have make it abstract just if one of them says so. -/
lemma abstract_mem_iff {e : MethodEntry} {ms : List Modifier}
    (h : List.Forall₂ (fun q m => Modifier.ofKeyword? q.value = some m) e.modifiers ms) :
    .abstractMember ∈ ms ↔ e.IsAbstract := by
  rw [MethodEntry.IsAbstract]
  generalize e.modifiers = qs at h
  induction h with
  | nil => simp
  | @cons q m qs ms hq _ ih =>
    have hword : m = .abstractMember ↔ q.value = "abstract" := by
      constructor
      · rintro rfl
        have hfound := List.find?_some hq
        exact (beq_iff_eq.1 hfound).symm
      · intro e
        rw [e] at hq
        exact (Option.some_inj.1 (hq.symm.trans (by decide)))
    rw [List.mem_cons, List.exists_mem_cons_iff, ih, ← hword, eq_comm]

/-- A method starts with the visibility of its kind of declaration. -/
lemma modifiers_new (kind : DeclarationKind) (needs : Dependencies) (name : String) :
    Modifiers.AskedFor kind.visibility? []
      (MethodDraft.new needs name (decide (kind = .interfaceDecl))).modifiers.toList := by
  cases kind <;> exact .ofVisibility _

/-- Parameters that are being built as their entries say are built so. -/
lemma gives_parameters {ds : List ParameterEntry} {ps : List ParameterDraft}
    (h : List.Forall₂ (fun d p => ParameterEntry.Gives s d p.build) ds ps) :
    List.Forall₂ (ParameterEntry.Gives s) ds (ps.map ParameterDraft.build) :=
  List.forall₂_map_right_iff.2 h

/-- A method that is asked for parameters gets them after those that it has. -/
lemma method_parameters {ds : List ParameterEntry} {acts : List MethodStep} {m m' : MethodDraft}
    (hasked : List.Forall₂
      (fun d a => ∃ t, s.resolve d.type = .ok t ∧ a = .parameter d.name.value t) ds acts)
    (h : Runs MethodStep.run acts m m') :
    ∃ ps, List.Forall₂ (fun d p => ParameterEntry.Gives s d p.build) ds ps ∧ ∃ needs,
      m' = { m with dependencies := needs, parameters := m.parameters ++ ps } := by
  apply Runs.collect (G := fun ps (m m' : MethodDraft) => ∃ needs,
    m' = { m with dependencies := needs, parameters := m.parameters ++ ps }) hasked h
  · exact fun m => ⟨m.dependencies, by simp⟩
  · rintro d act m ⟨t, ht, rfl⟩ -
    refine ⟨⟨d.name.value, t⟩, ⟨rfl, t, ht, rfl⟩, ?_⟩
    rintro ps m' ⟨needs, rfl⟩
    exact ⟨needs, by simp [MethodStep.run, Run.done]⟩

/-- A method that is asked for a return type has it. -/
lemma method_returns {t? : Option TypeRef} {m m' : MethodDraft}
    (h : Runs MethodStep.run (t?.toList.map .returns) m m') (hm : m.returns = none) :
    ∃ needs, m' = { m with dependencies := needs, returns := t? } := by
  apply h.option (G := fun t? m' => ∃ needs, m' = { m with dependencies := needs, returns := t? })
  · exact ⟨m.dependencies, by rw [← hm]⟩
  · exact fun t _ => ⟨m.dependencies.add t, rfl⟩

/-- A method that is asked for documentation has it. -/
lemma method_doc {text? : Option String} {m m' : MethodDraft}
    (h : Runs MethodStep.run (text?.toList.map .doc) m m') (hm : m.doc = none) :
    m' = { m with doc := text? } := by
  apply h.option (G := fun text? m' => m' = { m with doc := text? })
  · rw [← hm]
  · exact fun _ _ => rfl

/-- Modifiers that a method is asked for are put into its set, one after the other. -/
lemma method_modifiers {qs : List Quoted} {acts : List MethodStep} {m m' : MethodDraft}
    (hasked : List.Forall₂ (fun q a => ∃ x, Modifier.ofKeyword? q.value = some x ∧ a = .modifier x)
      qs acts) (h : Runs MethodStep.run acts m m') :
    ∃ xs, List.Forall₂ (fun q x => Modifier.ofKeyword? q.value = some x) qs xs ∧
      m' = { m with modifiers := m.modifiers.insertAll xs } := by
  apply Runs.collect (G := fun xs (m m' : MethodDraft) =>
    m' = { m with modifiers := m.modifiers.insertAll xs }) hasked h
  · exact fun m => rfl
  · rintro q act m ⟨x, hx, rfl⟩ -
    refine ⟨x, hx, ?_⟩
    rintro xs m' rfl
    rfl

/-- A method that is asked for attributes gets them after those that it has. -/
lemma method_attributes {ds : List AttributeEntry} {calls} {m m' : MethodDraft}
    (hcalls : s.attributeCalls ds = .ok calls) (h : Runs MethodStep.run [.attributes calls] m m') :
    ∃ as, List.Forall₂ (AttributeEntry.Gives s) ds as ∧ ∃ needs,
      m' = { m with dependencies := needs, attributes := m.attributes ++ as } := by
  obtain ⟨hok, rfl⟩ := h.single
  obtain ⟨added, hadded, hcommit⟩ := attributes_give hcalls hok
  exact ⟨added.attributes, hadded, added.dependencies, hcommit⟩

/-- A method that is asked for a body has the statements of its lines. -/
lemma method_lines {lines? : Option (List Quoted)} {m m' : MethodDraft}
    (h : Runs MethodStep.run (lines?.toList.map fun lines => .bodyWith (s.lineCalls lines)) m m')
    (hm : m.body = none) :
    ∃ body, Option.Rel Statement.ReadLines lines? body ∧ m' = { m with body := body } := by
  apply h.option (G := fun lines? m' =>
    ∃ body, Option.Rel Statement.ReadLines lines? body ∧ m' = { m with body := body })
  · exact ⟨none, .none, by rw [← hm]⟩
  · intro lines hok
    rw [MethodStep.run, hm] at hok ⊢
    obtain ⟨added, hread, hadded⟩ := lineCalls_read hok
    refine ⟨some added, .some hread, ?_⟩
    exact congrArg (fun body => { m with body := some body }) hadded

/-- A method returns the type of its text, or nothing without one. -/
lemma returns_give {q? : Option Quoted} {returns} (h : q?.mapM s.resolve = .ok returns) :
    (∀ q ∈ q?, s.Shows q ((returns.map TypeRef.display).getD "void")) ∧
      (q? = none → (returns.map TypeRef.display).getD "void" = "void") := by
  cases q? with
  | none =>
    cases h
    exact ⟨nofun, fun _ => rfl⟩
  | some q =>
    obtain ⟨t, ht, h⟩ := bind_eq_ok_iff.1 h
    cases h
    refine ⟨?_, nofun⟩
    rintro _ ⟨⟩
    exact ⟨t, ht, rfl⟩

/-- A method that was built has a body when it was given one, or when it has to have one. -/
lemma method_hasBody {kind : DeclarationKind} {d : MethodEntry} {m : MethodDraft}
    (hneeded : m.bodyNeeded = !decide (kind = .interfaceDecl))
    (habstract : .abstractMember ∈ m.modifiers.toList ↔ d.IsAbstract)
    (hbody : Option.Rel Statement.ReadLines d.body m.body) :
    m.build.body.isSome ↔ d.body.isSome ∨ kind ≠ .interfaceDecl ∧ ¬d.IsAbstract := by
  rw [MethodDraft.build, ← habstract]
  generalize d.body = lines?, m.body = body? at hbody
  cases hbody with
  | none => simp [hneeded, Modifiers.contains]
  | some => simp

/-- The body of a method is made of its lines, or it is empty. -/
lemma method_readsBody {d : MethodEntry} {m : MethodDraft}
    (hbody : Option.Rel Statement.ReadLines d.body m.body) :
    ∀ body ∈ m.build.body, Statement.ReadLines (d.body.getD []) body := by
  rw [MethodDraft.build]
  generalize d.body = lines?, m.body = body? at hbody
  intro body hmem
  cases hbody with
  | none =>
    dsimp only at hmem
    -- the body that a method has to have is empty
    split at hmem
    case isTrue =>
      cases hmem
      exact .nil
    case isFalse => cases hmem
  | some hread =>
    cases hmem
    exact hread

/-- A method that is opened is in the end what its entry gives. -/
lemma method_gives {kind : DeclarationKind} {d : MethodEntry} {returns parameters modifiers
    attributes needs} {calls : List (Call MethodStep)}
    (hreturns : d.returns.mapM s.resolve = .ok returns)
    (hparameters : s.parameters d.parameters = .ok parameters)
    (hmodifiers : d.modifiers.mapM s.modifier = .ok modifiers)
    (hattributes : s.attributeCalls d.attributes = .ok attributes)
    (hcalls : calls =
      returns.toList.map (fun t => Call.plain (MethodStep.returns t)) ++
        parameters.map (fun p => Call.plain (MethodStep.parameter p.1 p.2)) ++
        modifiers.map (fun m => Call.plain (MethodStep.modifier m)) ++
        d.doc.toList.map (fun text => Call.plain (MethodStep.doc text)) ++
        [Call.plain (MethodStep.attributes attributes)] ++
        d.body.toList.map (fun lines => Call.plain (MethodStep.bodyWith (s.lineCalls lines))))
    {r} (hr : r = Call.runAll MethodStep.run calls
      (.new needs d.name.value (decide (kind = .interfaceDecl))))
    (hok : r.result = .ok ()) : MethodEntry.Gives s kind d r.state.build := by
  have hstrict : ∀ c ∈ calls, c.caught = false := by
    rw [hcalls]
    simp only [List.forall_mem_append, List.forall_mem_map, List.forall_mem_singleton]
    exact ⟨⟨⟨⟨⟨fun _ _ => rfl, fun _ _ => rfl⟩, fun _ _ => rfl⟩, fun _ _ => rfl⟩, rfl⟩,
      fun _ _ => rfl⟩
  rw [hr] at hok
  have hruns := Call.runs_of_runAll hstrict hok
  rw [← hr, hcalls] at hruns
  simp only [List.map_append, List.map_map] at hruns
  -- one part of the entry after the other, from the last one back
  obtain ⟨m₅, hruns, hlines⟩ := hruns.cut
  obtain ⟨m₄, hruns, hlast⟩ := hruns.cut
  obtain ⟨m₃, hruns, hdoc⟩ := hruns.cut
  obtain ⟨m₂, hruns, hmods⟩ := hruns.cut
  obtain ⟨m₁, hret, hparams⟩ := hruns.cut
  obtain ⟨needs, rfl⟩ := method_returns hret rfl
  obtain ⟨ps, hps, needs, rfl⟩ := method_parameters (asked_parameters _ hparameters) hparams
  obtain ⟨xs, hxs, rfl⟩ := method_modifiers (asked_modifiers _ hmodifiers) hmods
  obtain rfl := method_doc hdoc rfl
  obtain ⟨as, has, needs, rfl⟩ := method_attributes hattributes hlast
  obtain ⟨body, hbody, hend⟩ := method_lines hlines rfl
  rw [hend]
  have hwritten := (modifiers_new kind needs d.name.value).insertAll isVisibility_of_start xs
  have habstract := (hwritten.mem_iff_of_not_visibility isVisibility_of_start rfl).trans
    (abstract_mem_iff hxs)
  exact ⟨rfl, rfl, returns_give hreturns, gives_parameters hps, has, ⟨xs, hxs, hwritten⟩, habstract,
    method_hasBody rfl habstract hbody, method_readsBody hbody⟩

/-- A constructor that is asked for parameters gets them after those that it has. -/
lemma constructor_parameters {ds : List ParameterEntry} {acts : List ConstructorStep}
    {k k' : ConstructorDraft}
    (hasked : List.Forall₂
      (fun d a => ∃ t, s.resolve d.type = .ok t ∧ a = .parameter d.name.value t) ds acts)
    (h : Runs ConstructorStep.run acts k k') :
    ∃ ps, List.Forall₂ (fun d p => ParameterEntry.Gives s d p.build) ds ps ∧ ∃ needs,
      k' = { k with dependencies := needs, parameters := k.parameters ++ ps } := by
  apply Runs.collect (G := fun ps (k k' : ConstructorDraft) => ∃ needs,
    k' = { k with dependencies := needs, parameters := k.parameters ++ ps }) hasked h
  · exact fun k => ⟨k.dependencies, by simp⟩
  · rintro d act k ⟨t, ht, rfl⟩ -
    refine ⟨⟨d.name.value, t⟩, ⟨rfl, t, ht, rfl⟩, ?_⟩
    rintro ps k' ⟨needs, rfl⟩
    exact ⟨needs, by simp [ConstructorStep.run, Run.done]⟩

/-- A visibility that a constructor is asked for is put into its set. -/
lemma constructor_modifier {x? : Option Modifier} {k k' : ConstructorDraft}
    (h : Runs ConstructorStep.run (x?.toList.map .modifier) k k') :
    k' = { k with modifiers := k.modifiers.insertAll x?.toList } := by
  apply h.option (G := fun x? k' =>
    k' = { k with modifiers := k.modifiers.insertAll x?.toList })
  · rfl
  · exact fun _ _ => rfl

/-- A constructor that is asked for documentation has it. -/
lemma constructor_doc {text? : Option String} {k k' : ConstructorDraft}
    (h : Runs ConstructorStep.run (text?.toList.map .doc) k k') (hk : k.doc = none) :
    k' = { k with doc := text? } := by
  apply h.option (G := fun text? k' => k' = { k with doc := text? })
  · rw [← hk]
  · exact fun _ _ => rfl

/-- A constructor that is asked for attributes gets them after those that it has. -/
lemma constructor_attributes {ds : List AttributeEntry} {calls} {k k' : ConstructorDraft}
    (hcalls : s.attributeCalls ds = .ok calls)
    (h : Runs ConstructorStep.run [.attributes calls] k k') :
    ∃ as, List.Forall₂ (AttributeEntry.Gives s) ds as ∧ ∃ needs,
      k' = { k with dependencies := needs, attributes := k.attributes ++ as } := by
  obtain ⟨hok, rfl⟩ := h.single
  obtain ⟨added, hadded, hcommit⟩ := attributes_give hcalls hok
  exact ⟨added.attributes, hadded, added.dependencies, hcommit⟩

/-- A constructor that is asked for a body gets the statements of its lines. -/
lemma constructor_lines {lines : List Quoted} {k k' : ConstructorDraft}
    (h : Runs ConstructorStep.run [.bodyWith (s.lineCalls lines)] k k') :
    ∃ added, Statement.ReadLines lines added ∧ k' = { k with body := k.body ++ added } := by
  obtain ⟨hok, rfl⟩ := h.single
  rw [ConstructorStep.run] at hok ⊢
  obtain ⟨added, hread, hadded⟩ := lineCalls_read hok
  exact ⟨added, hread, congrArg (fun body => { k with body := body }) hadded⟩

/-- What a constructor is asked to pass on, with the parameters that it has by then. -/
lemma base_gives {owner : Quoted} {b acts} {k k' : ConstructorDraft}
    (h : Scope.baseCall owner b = .ok acts) (hruns : Runs ConstructorStep.run acts k k')
    (hk : k.base = none) :
    ∃ base, k' = { k with base := base } ∧
      BaseEntry.Gives (k.parameters.map ParameterDraft.build) b k'.baseArgs := by
  unfold Scope.baseCall at h
  split at h
  case h_1 =>
    cases h
    cases hruns
    refine ⟨none, by rw [← hk], ?_⟩
    rw [ConstructorDraft.baseArgs, hk]
    exact .none
  case h_2 texts =>
    cases h
    obtain ⟨hok, rfl⟩ := hruns.single
    rw [ConstructorStep.run] at hok ⊢
    cases hparse : Expression.parseAll texts with
    | error e =>
      rw [hparse] at hok
      cases hok
    | ok es => exact ⟨_, rfl, .args (reads_of_parseAll hparse)⟩
  case h_3 word =>
    split at h
    case isFalse => cases h
    case isTrue hword =>
      cases h
      obtain rfl := beq_iff_eq.1 hword
      obtain ⟨-, rfl⟩ := hruns.single
      refine ⟨some .forward, rfl, ?_⟩
      -- the call notes only that parameters are passed on: which ones is read off when it is built
      have hargs : (ConstructorStep.run .mapBase k).state.baseArgs =
          some ((k.parameters.map ParameterDraft.build).map fun p => ⟨p.name⟩) := by
        rw [List.map_map]
        rfl
      rw [hargs]
      exact .forward

/-- A constructor is public, or it has the visibility that it is asked to have. -/
lemma constructor_access {word : Option Quoted} {access} (h : word.mapM s.visibility = .ok access) :
    Modifiers.Access .classDecl word
      ((Modifiers.ofVisibility (some .publicAccess)).insertAll access.toList).toList := by
  obtain ⟨hvisibility, hgiven⟩ : _ ∧ Modifiers.Access .classDecl word _ := access_asked h
  have hstart : ∀ m ∈ DeclarationKind.classDecl.visibility?, m.isVisibility = true :=
    isVisibility_of_start
  have hasked := (Modifiers.AskedFor.ofVisibility _).insertAll hstart access.toList
  have honly := hasked.eq_visibility fun m hm => hvisibility m (Option.mem_toList.1 hm)
  rw [List.nil_append, Modifiers.visibility?_toList hvisibility] at honly
  exact honly ▸ hgiven

/-- A constructor that is opened is in the end what its entry gives. -/
lemma constructor_gives {name : String} {owner : Quoted} {d : ConstructorEntry}
    {parameters base attributes needs}
    {access : Option Modifier} {calls : List (Call ConstructorStep)}
    (hparameters : s.parameters d.parameters = .ok parameters)
    (hattributes : s.attributeCalls d.attributes = .ok attributes)
    (hbase : Scope.baseCall owner d.base = .ok base)
    (haccess : d.access.mapM s.visibility = .ok access)
    (hcalls : calls =
      parameters.map (fun p => Call.plain (ConstructorStep.parameter p.1 p.2)) ++
        access.toList.map (fun m => Call.plain (ConstructorStep.modifier m)) ++
        d.doc.toList.map (fun text => Call.plain (ConstructorStep.doc text)) ++
        base.map Call.plain ++
        [Call.plain (ConstructorStep.attributes attributes),
          Call.plain (ConstructorStep.bodyWith (s.lineCalls d.body))])
    {r} (hr : r = Call.runAll ConstructorStep.run calls (.new needs name))
    (hok : r.result = .ok ()) : ConstructorEntry.Gives s name d r.state.build := by
  have hstrict : ∀ c ∈ calls, c.caught = false := by
    rw [hcalls]
    simp only [List.forall_mem_append, List.forall_mem_map, List.forall_mem_cons]
    exact ⟨⟨⟨⟨fun _ _ => rfl, fun _ _ => rfl⟩, fun _ _ => rfl⟩, fun _ _ => rfl⟩, rfl, rfl,
      List.forall_mem_nil _⟩
  rw [hr] at hok
  have hruns := Call.runs_of_runAll hstrict hok
  rw [← hr, hcalls] at hruns
  simp only [List.map_append, List.map_map] at hruns
  obtain ⟨k₄, hruns, hlast⟩ := hruns.cut
  obtain ⟨k₃, hruns, hbases⟩ := hruns.cut
  obtain ⟨k₂, hruns, hdoc⟩ := hruns.cut
  obtain ⟨k₁, hparams, hmodifier⟩ := hruns.cut
  obtain ⟨ps, hps, needs, rfl⟩ := constructor_parameters (asked_parameters _ hparameters) hparams
  obtain rfl := constructor_modifier hmodifier
  obtain rfl := constructor_doc hdoc rfl
  -- the base call comes after all parameters, so that forwarding passes on all of them
  have hacts : base.map (Call.act ∘ Call.plain) = base := List.map_id _
  rw [hacts] at hbases
  obtain ⟨call, rfl, hcall⟩ := base_gives hbase hbases rfl
  change Runs ConstructorStep.run
    ([ConstructorStep.attributes attributes] ++ [ConstructorStep.bodyWith (s.lineCalls d.body)]) _ _
    at hlast
  obtain ⟨k₅, hattr, hbody⟩ := hlast.cut
  obtain ⟨as, has, needs, rfl⟩ := constructor_attributes hattributes hattr
  obtain ⟨body, hread, hend⟩ := constructor_lines hbody
  rw [hend]
  exact ⟨rfl, rfl, constructor_access haccess, gives_parameters hps, has, hcall, hread⟩

end Manifest

end SharpSmith
