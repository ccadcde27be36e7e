import SharpSmith.Proofs.Building
import SharpSmith.Proofs.Imports

/-!
# Source files of valid manifests

The calls that a valid manifest asks for are made with identifiers for names and proper types, so
its source file is tidy: it is accepted unless one of its statements and expressions has no tokens
any more once its tokens were put together.
-/

namespace SharpSmith.Manifest

open Build Fragment

variable {m : Manifest}

/-- The calls for attributes of a checked manifest are sound. -/
lemma sound_attributeCalls {ds : List AttributeEntry} {calls} (hm : Checked m)
    (h : (Scope.ofManifest m).attributeCalls ds = .ok calls) : ∀ c ∈ calls, c.act.Sound := by
  intro c hc
  obtain ⟨d, -, hd⟩ := exists_of_mem_of_forall₂ (mapM_eq_ok_iff.1 h) hc
  obtain ⟨t, ht, hcall⟩ := bind_eq_ok_iff.1 hd
  cases hcall
  show (if d.args.isEmpty then AttributeStep.addBare t else .add t _).Sound
  split <;> exact hm.proper ht

/-- Parameters with identifiers for names are sound. -/
lemma sound_parameters {ds : List ParameterEntry} {ps} (hm : Checked m)
    (hn : ∀ d ∈ ds, IsIdentifier d.name.value.toList)
    (h : (Scope.ofManifest m).parameters ds = .ok ps) :
    ∀ p ∈ ps, ParameterDraft.Sound ⟨p.1, p.2⟩ := by
  intro p hp
  obtain ⟨d, hd, hcall⟩ := exists_of_mem_of_forall₂ (mapM_eq_ok_iff.1 h) hp
  obtain ⟨t, ht, e⟩ := bind_eq_ok_iff.1 hcall
  cases e
  exact ⟨hn d hd, hm.proper ht⟩

/-- The call for a property whose name is an identifier is sound. -/
lemma sound_propertyCall {inInterface} {d : PropertyEntry} {c} (hm : Checked m)
    (hn : IsIdentifier d.name.value.toList)
    (h : (Scope.ofManifest m).propertyCall inInterface d = .ok c) : c.act.Sound := by
  simp only [Scope.propertyCall, bind_eq_ok_iff] at h
  obtain ⟨access, -, accessors, -, type, htype, attributes, hattributes, h⟩ := h
  cases h
  have hcalls := sound_attributeCalls hm hattributes
  have hdetails : ∀ c ∈ accessors.map (fun a => Call.plain (.accessor a)) ++
      d.doc.toList.map (fun text => Call.plain (.doc text)) ++ [.plain (.attributes attributes)],
      HandleStep.Sound c.act := by
    simp only [List.forall_mem_append, List.forall_mem_map, List.forall_mem_singleton]
    exact ⟨⟨fun _ _ => trivial, fun _ _ => trivial⟩, hcalls⟩
  dsimp only [Call.plain]
  split
  case h_1 | h_3 => exact ⟨hn, hm.proper htype, hdetails⟩
  case h_2 => exact ⟨hn, hm.proper htype, List.forall_mem_cons.2 ⟨trivial, hdetails⟩⟩

/-- What a constructor passes on is read before it is used. -/
lemma sound_baseCall {owner base acts} (h : Scope.baseCall owner base = .ok acts) :
    ∀ act ∈ acts, act.Sound := by
  unfold Scope.baseCall at h
  split at h
  case h_1 =>
    cases h
    exact nofun
  case h_2 =>
    cases h
    exact List.forall_mem_singleton.2 trivial
  case h_3 =>
    split at h
    case isTrue =>
      cases h
      exact List.forall_mem_singleton.2 trivial
    case isFalse => cases h

/-- The call for a constructor whose parameters are named by identifiers is sound. -/
lemma sound_constructorCall {owner : Quoted} {d : ConstructorEntry} {c} (hm : Checked m)
    (hn : ∀ p ∈ d.parameters, IsIdentifier p.name.value.toList)
    (h : (Scope.ofManifest m).constructorCall owner d = .ok c) : c.act.Sound := by
  simp only [Scope.constructorCall, bind_eq_ok_iff] at h
  obtain ⟨parameters, hparameters, access, -, attributes, hattributes, base, hbase, h⟩ := h
  cases h
  show ∀ c ∈ (_ : List (Call ConstructorStep)), c.act.Sound
  simp only [List.forall_mem_append, List.forall_mem_map, List.forall_mem_cons]
  refine ⟨⟨⟨⟨?_, fun _ _ => trivial⟩, fun _ _ => trivial⟩, ?_⟩, ?_, trivial,
    List.forall_mem_nil _⟩
  · exact sound_parameters hm hn hparameters
  · exact sound_baseCall hbase
  · exact sound_attributeCalls hm hattributes

variable {kind : DeclarationKind}

/-- The call for a method that is named by identifiers, as its parameters are, is sound. -/
lemma sound_methodCall {d : MethodEntry} {c : Call (DeclarationStep kind)} (hm : Checked m)
    (hn : IsIdentifier d.name.value.toList)
    (hps : ∀ p ∈ d.parameters, IsIdentifier p.name.value.toList)
    (h : (Scope.ofManifest m).methodCall d = .ok c) : c.act.Sound := by
  simp only [Scope.methodCall, bind_eq_ok_iff] at h
  obtain ⟨returns, hreturns, parameters, hparameters, modifiers, -, attributes, hattributes, h⟩ := h
  cases h
  refine ⟨hn, ?_⟩
  simp only [List.forall_mem_append, List.forall_mem_map, List.forall_mem_singleton]
  refine ⟨⟨⟨⟨⟨?_, ?_⟩, fun _ _ => trivial⟩, fun _ _ => trivial⟩, ?_⟩, fun _ _ => trivial⟩
  · intro t ht
    obtain ⟨q, -, hq⟩ := exists_of_mem_of_forall₂ (forall₂_of_option_mapM hreturns) ht
    exact hm.proper hq
  · exact sound_parameters hm hps hparameters
  · exact sound_attributeCalls hm hattributes

/-- A plan all of whose calls are sound. -/
def Plan.Sound (plan : Plan kind) : Prop :=
  ∀ call ∈ plan, ∀ c, call = .ok c → c.act.Sound

/-- A sound plan after a sound one is sound. -/
lemma Plan.Sound.append {plan plan' : Plan kind} (h : plan.Sound) (h' : plan'.Sound) :
    Plan.Sound (plan ++ plan') :=
  List.forall_mem_append.2 ⟨h, h'⟩

/-- A plan of parts of one sort is sound if each call of them is. -/
lemma Plan.sound_map {β : Type} {f : β → Except ManifestError (Call (DeclarationStep kind))}
    {xs : List β} (h : ∀ x ∈ xs, ∀ c, f x = .ok c → c.act.Sound) : Plan.Sound (xs.map f) :=
  List.forall_mem_map.2 h

/-- A plan of one call is sound if the call is. -/
lemma Plan.sound_single {call : Except ManifestError (Call (DeclarationStep kind))}
    (h : ∀ c, call = .ok c → c.act.Sound) : Plan.Sound [call] :=
  List.forall_mem_singleton.2 h

/-- Running a sound plan keeps a declaration sound. -/
lemma Plan.Sound.run {plan : Plan kind} {d d'} (h : plan.Sound) (hd : d.Sound)
    (hrun : plan.run d = .ok d') : d'.Sound := by
  induction plan generalizing d with
  | nil =>
    cases hrun
    exact hd
  | cons call plan ih =>
    cases call with
    | error e => cases hrun
    | ok c =>
      rw [Plan.run] at hrun
      split at hrun
      case h_2 => cases hrun
      case h_1 =>
        refine ih (fun x hx => h x (.tail _ hx)) ?_ hrun
        rw [Call.run_state]
        exact (h _ (.head _) c rfl).keeps d hd

/-- What stands above a declaration of a checked manifest is sound. -/
lemma sound_headPlan {doc modifiers attributes} (hm : Checked m) :
    Plan.Sound ((Scope.ofManifest m).headPlan doc modifiers attributes : Plan kind) := by
  refine .append (.append (Plan.sound_map ?_) (Plan.sound_map ?_)) (Plan.sound_single ?_)
  · rintro text - c ⟨⟩
    trivial
  · intro q _ c hc
    obtain ⟨x, -, rfl⟩ := map_eq_ok_iff.1 hc
    trivial
  · intro c hc
    obtain ⟨calls, hcalls, rfl⟩ := map_eq_ok_iff.1 hc
    exact sound_attributeCalls hm hcalls

/-- The call for a base type of a checked manifest is sound. -/
lemma sound_extendCall {q} {c : Call (DeclarationStep kind)} (hm : Checked m)
    (h : (Scope.ofManifest m).extendCall q = .ok c) : c.act.Sound := by
  obtain ⟨t, ht, rfl⟩ := map_eq_ok_iff.1 h
  exact hm.proper ht

/-- The call for an interface of a checked manifest is sound. -/
lemma sound_implementCall {q} {allowed : kind ≠ .interfaceDecl} {c} (hm : Checked m)
    (h : (Scope.ofManifest m).implementCall allowed q = .ok c) : c.act.Sound := by
  obtain ⟨t, ht, rfl⟩ := map_eq_ok_iff.1 h
  exact hm.proper ht

/-- The call for properties whose names are identifiers is sound. -/
lemma sound_propertiesCall {inInterface} {ds : List PropertyEntry}
    {c : Call (DeclarationStep kind)} (hm : Checked m)
    (hn : ∀ d ∈ ds, IsIdentifier d.name.value.toList)
    (h : (Scope.ofManifest m).propertiesCall inInterface ds = .ok c) : c.act.Sound := by
  obtain ⟨calls, hcalls, rfl⟩ := map_eq_ok_iff.1 h
  intro c hc
  obtain ⟨d, hd, hcall⟩ := exists_of_mem_of_forall₂ (mapM_eq_ok_iff.1 hcalls) hc
  exact sound_propertyCall hm (hn d hd) hcall

/-- What the names of a declaration and its members are, part by part. -/
lemma names_cases {d : Definition} (h : ∀ q ∈ d.names, IsIdentifier q.value.toList) :
    IsIdentifier d.name.value.toList ∧
      (∀ p ∈ d.properties, IsIdentifier p.name.value.toList) ∧
      (∀ k ∈ d.methods, IsIdentifier k.name.value.toList ∧
        ∀ p ∈ k.parameters, IsIdentifier p.name.value.toList) ∧
      match d with
      | .ofClass c => ∀ k ∈ c.constructors, ∀ p ∈ k.parameters, IsIdentifier p.name.value.toList
      | .ofRecord r => ∀ p ∈ r.parameters, IsIdentifier p.name.value.toList
      | .ofInterface _ => True := by
  obtain ⟨hname, hproperties, hmethods, hlists⟩ := Definition.forall_mem_names_iff.1 h
  simp only [Definition.parameterLists, List.forall_mem_append, List.forall_mem_map] at hlists
  obtain ⟨hparameters, hrest⟩ := hlists
  refine ⟨hname, hproperties, fun k hk => ⟨hmethods k hk, hparameters k hk⟩, ?_⟩
  cases d with
  | ofClass c => exact List.forall_mem_map.1 hrest
  | ofRecord r => exact hrest _ (.head _)
  | ofInterface => trivial

/-- A declaration of a valid manifest is built sound. -/
lemma sound_draft {d space a} (hm : Checked m) (hd : d ∈ m.definitions)
    (h : draft (.ofManifest m) space d = .ok a) : a.draft.Sound := by
  obtain ⟨hname, hproperties, hmethods, hrest⟩ := names_cases (hm.names d hd)
  cases d with
  | ofClass d =>
    obtain ⟨a, hrun, rfl⟩ := map_eq_ok_iff.1 h
    refine Plan.Sound.run ?_ (Draft.sound_new hname) hrun
    refine .append (.append (.append (.append (.append ?_ ?_) ?_) ?_) ?_) ?_
    · exact sound_headPlan hm
    · exact Plan.sound_map fun _ _ _ => sound_extendCall hm
    · exact Plan.sound_map fun _ _ _ => sound_implementCall hm
    · exact Plan.sound_single fun _ => sound_propertiesCall hm hproperties
    · exact Plan.sound_map fun k hk _ => sound_constructorCall hm (hrest k hk)
    · exact Plan.sound_map fun k hk _ => sound_methodCall hm (hmethods k hk).1 (hmethods k hk).2
  | ofInterface d =>
    obtain ⟨a, hrun, rfl⟩ := map_eq_ok_iff.1 h
    refine Plan.Sound.run ?_ (Draft.sound_new hname) hrun
    refine .append (.append (.append ?_ ?_) ?_) ?_
    · exact sound_headPlan hm
    · exact Plan.sound_map fun _ _ _ => sound_extendCall hm
    · exact Plan.sound_single fun _ => sound_propertiesCall hm hproperties
    · exact Plan.sound_map fun k hk _ => sound_methodCall hm (hmethods k hk).1 (hmethods k hk).2
  | ofRecord d =>
    obtain ⟨a, hrun, rfl⟩ := map_eq_ok_iff.1 h
    refine Plan.Sound.run ?_ (Draft.sound_new hname) hrun
    refine .append (.append (.append (.append (.append ?_ ?_) ?_) ?_) ?_) ?_
    · exact sound_headPlan hm
    · refine Plan.sound_map fun p hp c hc => ?_
      obtain ⟨t, ht, rfl⟩ := map_eq_ok_iff.1 hc
      exact ⟨hrest p hp, hm.proper ht⟩
    · exact Plan.sound_map fun _ _ _ => sound_extendCall hm
    · exact Plan.sound_map fun _ _ _ => sound_implementCall hm
    · exact Plan.sound_single fun _ => sound_propertiesCall hm hproperties
    · exact Plan.sound_map fun k hk _ => sound_methodCall hm (hmethods k hk).1 (hmethods k hk).2

/-- The source file of a valid manifest is sound. -/
lemma sound_file {f} (hm : Checked m) (hf : m.file = .ok f) : f.Sound := by
  obtain ⟨drafts, hdrafts, hbuild⟩ := drafts_of_file hf
  obtain ⟨husings, -⟩ := usings_of_file hm hf
  obtain ⟨a, rest, hcons, rfl⟩ := file_of_build hbuild
  have hsource : ∀ a ∈ drafts, ∃ d ∈ m.definitions, draft (.ofManifest m) m.space d = .ok a :=
    fun a ha => exists_of_mem_of_forall₂ hdrafts ha
  refine ⟨fun u hu => ?_, fun space hspace => ?_, FileDraft.sound_built fun a ha => ?_⟩
  · -- a using is the namespace of a type that is written somewhere
    obtain ⟨-, _, -, q, -, t, ht, n, hn, -, ho⟩ := (husings u).1 hu
    have hnamed := named_namespace ((hm.proper ht n hn).origin u ho)
    rwa [String.ofList_toList] at hnamed
  · obtain ⟨d, -, hdraft⟩ := hsource a (hcons ▸ .head _)
    dsimp only at hspace
    rw [(namespaces_of_draft hm hdraft).1] at hspace
    split at hspace
    case isTrue => cases hspace
    case isFalse hne =>
      cases hspace
      have hnamed := named_namespace (isNamespace_of_fault? hm.space (by simpa using hne))
      rwa [String.ofList_toList] at hnamed
  · obtain ⟨d, hd, hdraft⟩ := hsource a ha
    exact sound_draft hm hd hdraft

/-- The text of a manifest is that of its source file. -/
lemma file_of_render {source} (h : m.render = .ok source) :
    ∃ f, m.file = .ok f ∧ source = f.render .standard := by
  simp only [render, bind_eq_ok_iff, mapError_eq_ok_iff] at h
  obtain ⟨p, hp, hrender⟩ := h
  obtain ⟨f, hbuild, rfl⟩ := map_eq_ok_iff.1 hrender
  have hindent : p.indent = .standard := by
    simp only [project, bind_eq_ok_iff] at hp
    obtain ⟨drafts, -, e⟩ := hp
    cases e
    rfl
  refine ⟨f, ?_, by rw [← hindent]; rfl⟩
  simp only [file, bind_eq_ok_iff, mapError_eq_ok_iff]
  exact ⟨p, hp, hbuild⟩

/-- The text of a valid manifest is accepted just if each of its statements and expressions still
has tokens, and one that has none was put together from tokens that fuse. -/
theorem render_verifies_iff {source : String} (hv : m.validate = .ok ())
    (hr : m.render = .ok source) :
    ∃ f, m.file = .ok f ∧ source = f.render .standard ∧
      (Source.verify source = .ok () ↔ ∀ text ∈ f.fragments, Lexes text) ∧
      ∀ text ∈ f.fragments, ¬Lexes text →
        ∃ ts, Balanced ts ∧ text = joinTokens ts ∧ fuses (roles ts) = true := by
  obtain ⟨f, hf, rfl⟩ := file_of_render hr
  have hsound := sound_file (checked_of_validate hv) hf
  exact ⟨f, hf, rfl, hsound.verify_iff, fun text ht => (hsound.isFragment text ht).fuses⟩

/-- A manifest with one class, one method in it, and one line in that. -/
def oneLine (line : String) : Manifest where
  space := "N"
  style := .file
  types := .empty
  classes :=
    [{ name := ⟨"A", ⟨0, 0⟩⟩
       doc := none
       modifiers := []
       base := none
       interfaces := []
       attributes := []
       properties := []
       constructors := []
       methods :=
        [{ name := ⟨"M", ⟨0, 0⟩⟩
           returns := none
           parameters := []
           modifiers := []
           body := some [⟨line, ⟨0, 0⟩⟩]
           doc := none
           attributes := [] }] }]
  interfaces := []
  records := []
  document := ⟨"", ""⟩

/-- The tokens of `x = - y` are put together without any of them fusing. -/
theorem render_verifies_sign :
    ∃ source, (oneLine "x = - y").validate = .ok () ∧
      (oneLine "x = - y").render = .ok source ∧ Source.verify source = .ok () := by
  have hv : (oneLine "x = - y").validate = .ok () := by decide +kernel
  have hok : (oneLine "x = - y").render.isOk = true := by decide +kernel
  have hfragments : (oneLine "x = - y").file.toOption.map Code.File.fragments =
      some ["x = -y;"] := by decide +kernel
  cases hr : (oneLine "x = - y").render with
  | error e =>
    rw [hr] at hok
    cases hok
  | ok source =>
    obtain ⟨f, hf, -, hverify, -⟩ := render_verifies_iff hv hr
    refine ⟨source, hv, rfl, hverify.2 ?_⟩
    rw [hf] at hfragments
    rw [Option.some.inj hfragments, List.forall_mem_singleton]
    decide +kernel

/-- Not every valid manifest has a text that is accepted: the point of `0x1 . 1e+²` makes one
hexadecimal number of those beside it, which has no exponent, and no token starts with `²`. -/
theorem render_unverified :
    ¬∀ (m : Manifest) (source : String), m.validate = .ok () → m.render = .ok source →
      Source.verify source = .ok () := by
  intro h
  have hv : (oneLine "x = 0x1 . 1e+²").validate = .ok () := by decide +kernel
  have hbad : ((oneLine "x = 0x1 . 1e+²").render.toOption.any
      fun source => !(Source.verify source).isOk) = true := by decide +kernel
  cases hr : (oneLine "x = 0x1 . 1e+²").render with
  | error e =>
    rw [hr] at hbad
    cases hbad
  | ok source =>
    have hok := h _ source hv hr
    rw [hr] at hbad
    simp [Except.toOption, hok, Except.isOk, Except.toBool] at hbad

end SharpSmith.Manifest
