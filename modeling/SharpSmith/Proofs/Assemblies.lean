import SharpSmith.Proofs.Imports

/-!
# The assemblies that a manifest refers to

The file of a manifest refers to the assemblies of the runtime and to those of the types that are
written anywhere in the manifest and imported. An assembly goes along with the import of its type: a
type that calls for no import, since it has no namespace, has that of the manifest or is built in,
brings no assembly with it. `assembly_referred` says what is referred to, `assembly_left_out` shows
an assembly that is not.
-/

namespace SharpSmith

namespace WrittenType

/-- The parts of a type as it is written: the type itself and the parts of its arguments. -/
inductive Part : WrittenType → WrittenType → Prop where
  | self {e} : Part e e
  | arg {e a w} :
    a ∈ w.args →
    Part e a →
    Part e w

end WrittenType

namespace Vocabulary

variable {t : Vocabulary}

/-- The type declared elsewhere that a written type goes back to, if its name means one. -/
def external? (t : Vocabulary) (e : WrittenType) : Option ExternalType :=
  if e.args.isEmpty && (BuiltIn.ofName? e.name).isSome then none
  else if (t.declared? e.name).isSome then none
  else t.external.get? e.name

/-- A written type that goes back to a type declared elsewhere means that type. -/
lemma lookup?_of_external? {e : WrittenType} {x types} (h : t.external? e = some x)
    (hargs : types.isEmpty = e.args.isEmpty) :
    t.lookup? e.name types = some (externalType e.name x types) := by
  unfold external? at h
  split at h
  case isTrue => cases h
  case isFalse hfree =>
    split at h
    case isTrue => cases h
    case isFalse hdeclared =>
      have hbuiltIn : (if types.isEmpty then BuiltIn.ofName? e.name else none) = none := by
        rw [hargs]
        cases hempty : e.args.isEmpty with
        | false => rfl
        | true => simpa [hempty] using hfree
      have hundeclared : t.declared? e.name = none := by simpa using hdeclared
      rw [lookup?, hbuiltIn, hundeclared]
      dsimp only
      rw [h]

/-- What a name means has the arguments that it is given. -/
lemma args_of_lookup? {name args type} (h : t.lookup? name args = some type) :
    type.args = args := by
  unfold lookup? at h
  split at h
  case h_1 b hb =>
    cases h
    split at hb
    case isFalse => cases hb
    case isTrue hargs => exact (List.isEmpty_iff.1 hargs).symm
  case h_2 =>
    split at h
    case h_1 =>
      cases h
      rfl
    case h_2 =>
      split at h
      case h_1 =>
        cases h
        rfl
      case h_2 => exact (Manifest.proper_of_catalog h).1

/-- Written types that mean something mean one type each. -/
lemma forall₂_of_resolveAll {es types} (h : t.resolveAll es = .ok types) :
    List.Forall₂ (fun e type => t.resolve e = .ok type) es types := by
  induction es generalizing types with
  | nil =>
    cases h
    exact .nil
  | cons e es ih =>
    rw [resolveAll] at h
    split at h
    case h_1 => cases h
    case h_2 type htype =>
      split at h
      case h_1 => cases h
      case h_2 us hus =>
        cases h
        exact .cons htype (ih hus)

/-- The parts of a type are parts of its arrays. -/
lemma nodes_arrays {type n : TypeRef} {rank} (h : n ∈ type.nodes) :
    n ∈ (arrays type rank).nodes := by
  induction rank with
  | zero => exact h
  | succ rank ih =>
    rw [arrays, Manifest.nodes_eq, TypeRef.array, TypeRef.nodesAll, TypeRef.nodesAll,
      List.append_nil]
    exact .tail _ ih

/-- The parts of one of several types are among the parts of all. -/
lemma mem_nodesAll {types : List TypeRef} {type n} (ht : type ∈ types) (hn : n ∈ type.nodes) :
    n ∈ TypeRef.nodesAll types := by
  induction types with
  | nil => cases ht
  | cons u us ih =>
    rw [TypeRef.nodesAll, List.mem_append]
    cases ht with
    | head => exact .inl hn
    | tail _ ht => exact .inr (ih ht)

/-- The types of the parts of a written type are among the nodes of what it means. -/
lemma mem_nodes_of_part {w e : WrittenType} {x type} (hpart : e.Part w)
    (hexternal : t.external? e = some x) (h : t.resolve w = .ok type) :
    ∃ types, externalType e.name x types ∈ type.nodes := by
  induction hpart generalizing type with
  | self =>
    obtain ⟨name, args, rank, span⟩ := e
    rw [resolve] at h
    split at h
    case h_1 => cases h
    case h_2 types htypes =>
      have hempty : types.isEmpty = args.isEmpty := by
        cases forall₂_of_resolveAll htypes <;> rfl
      rw [lookup?_of_external? hexternal hempty] at h
      cases h
      refine ⟨types, nodes_arrays ?_⟩
      rw [Manifest.nodes_eq]
      exact .head _
  | @arg a w ha _ ih =>
    obtain ⟨name, args, rank, span⟩ := w
    rw [resolve] at h
    split at h
    case h_1 => cases h
    case h_2 types htypes =>
      have hargs := forall₂_of_resolveAll htypes
      split at h
      case h_2 => cases h
      case h_1 type hlookup =>
        cases h
        -- the part is in an argument, whose type is an argument of the type that is found
        obtain ⟨found, hfound⟩ := exists_result_of_forall₂ hargs ha
        obtain ⟨u, hu, us, hmem⟩ := (exists_mem_iff_of_forall₂ hargs fun u =>
          ∃ us, externalType e.name x us ∈ u.nodes).2 ⟨a, ha, found, hfound, ih hfound⟩
        refine ⟨us, nodes_arrays ?_⟩
        rw [Manifest.nodes_eq, args_of_lookup? hlookup]
        exact .tail _ (mem_nodesAll hu hmem)

end Vocabulary

namespace Manifest

/-- Some part of some type text of a declaration means the type declared elsewhere that `x` says. -/
def Mentions (m : Manifest) (x : ExternalType) : Prop :=
  ∃ d ∈ m.definitions, ∃ q ∈ d.typeTexts, ∃ w e, WrittenType.parse q.value = .ok w ∧
    WrittenType.Part e w ∧ (Vocabulary.ofManifest m).external? e = some x

/-- An assembly goes along with the import of its type, so the type has to call for one. -/
structure Imported (m : Manifest) (x : ExternalType) : Prop where
  notBuiltIn : x.kind ≠ .builtIn
  elsewhere : ∃ space ∈ x.space, space ≠ "" ∧ space ≠ m.space

/-- What a text means is read from it and resolved. -/
lemma resolve_eq_ok {s : Scope} {q t} (h : s.resolve q = .ok t) :
    ∃ w, WrittenType.parse q.value = .ok w ∧ s.types.resolve w = .ok t := by
  unfold Scope.resolve at h
  dsimp only at h
  split at h
  case h_1 => cases h
  case h_2 w hw =>
    split at h
    case h_1 => cases h
    case h_2 t ht =>
      cases h
      exact ⟨w, hw, ht⟩

/-- The declarations of a project that is built from a manifest. -/
lemma drafts_of_project {m : Manifest} {p} (h : m.project = .ok p) :
    List.Forall₂ (fun d a => draft (.ofManifest m) m.space d = .ok a) m.definitions
      p.declarations := by
  simp only [project, bind_eq_ok_iff] at h
  obtain ⟨drafts, hdrafts, hp⟩ := h
  cases hp
  exact mapM_eq_ok_iff.1 hdrafts

/-- What a file refers to comes from the runtime or from the needs of a declaration. -/
lemma mem_references {f : Build.FileDraft} {a} :
    a ∈ f.references.toList ↔
      a ∈ References.runtime.toList ∨ ∃ d ∈ f.declarations, a ∈ d.dependencies.artifacts := by
  have hneeds : a ∈ f.dependencies.artifacts ↔
      ∃ d ∈ f.declarations, a ∈ d.dependencies.artifacts := by
    unfold Build.FileDraft.dependencies
    rw [Dependencies.mem_foldl_union_artifacts]
    simp [Dependencies.new]
  rw [Build.FileDraft.references, References.ofList, References.extend, References.extend,
    Dependencies.mem_foldl_insertNew, Dependencies.mem_foldl_insertNew, hneeds, or_comm]
  simp

/-- The assemblies that a declaration needs are those of the types that its texts mean. -/
lemma artifacts_of_draft {m : Manifest} {d b a}
    (h : draft (.ofManifest m) m.space d = .ok b) :
    a ∈ b.dependencies.artifacts ↔
      ∃ q ∈ d.typeTexts, ∃ t, (Scope.ofManifest m).resolve q = .ok t ∧ t.RefersTo m.space a := by
  obtain ⟨ts, hts, hdeps⟩ := means_of_draft h
  rw [hdeps, Dependencies.mem_addAll_artifacts, ← exists_mem_iff_of_forall₂ hts]
  simp [Dependencies.new]

/-- What the file of a manifest refers to comes from the runtime or from a type that is written in
the manifest. -/
lemma references_of_project {m : Manifest} {p a} (h : m.project = .ok p) :
    a ∈ p.file.references.toList ↔
      a ∈ References.runtime.toList ∨ ∃ d ∈ m.definitions, ∃ q ∈ d.typeTexts, ∃ t,
        (Scope.ofManifest m).resolve q = .ok t ∧ t.RefersTo m.space a := by
  have hdrafts := drafts_of_project h
  rw [mem_references]
  refine or_congr_right ?_
  show (∃ b ∈ p.declarations, a ∈ b.dependencies.artifacts) ↔ _
  rw [exists_mem_iff_of_forall₂ hdrafts fun b => a ∈ b.dependencies.artifacts]
  constructor
  · rintro ⟨d, hd, b, hb, ha⟩
    exact ⟨d, hd, (artifacts_of_draft hb).1 ha⟩
  · rintro ⟨d, hd, ha⟩
    obtain ⟨b, hb⟩ := exists_result_of_forall₂ hdrafts hd
    exact ⟨d, hd, b, hb, (artifacts_of_draft hb).2 ha⟩

/-- A type text with a part that means a type declared elsewhere refers to its assembly, if that
type is imported. -/
lemma refersTo_of_part {m : Manifest} {x : ExternalType} {q t w e a}
    (himported : m.Imported x) (hassembly : x.assembly = some a)
    (hparse : WrittenType.parse q.value = .ok w) (hpart : WrittenType.Part e w)
    (hexternal : (Vocabulary.ofManifest m).external? e = some x)
    (h : (Scope.ofManifest m).resolve q = .ok t) : t.RefersTo m.space a := by
  obtain ⟨w', hw', hresolve⟩ := resolve_eq_ok h
  cases hparse.symm.trans hw'
  obtain ⟨types, hmem⟩ := Vocabulary.mem_nodes_of_part hpart hexternal hresolve
  obtain ⟨hkind, space, hspace, hne, hown⟩ := himported
  refine ⟨_, hmem, ?_, ⟨space, ?_, hown⟩, hassembly⟩
  · simpa [TypeRef.isBuiltIn, Vocabulary.externalType] using hkind
  · exact Option.filter_eq_some_iff.2 ⟨hspace, by simpa using hne⟩

/-- The file of a manifest refers to the assemblies of the runtime and of the types that its type
texts mean, those without a namespace or from its own apart. So it refers to the assembly of every
type declared elsewhere that some part of a type text means, if the type is imported. -/
theorem assembly_referred {m : Manifest} {p : Build.Project} (hp : m.project = .ok p) :
    (∀ a, a ∈ p.file.references.toList ↔
      a ∈ References.runtime.toList ∨ ∃ d ∈ m.definitions, ∃ q ∈ d.typeTexts, ∃ t,
        (Scope.ofManifest m).resolve q = .ok t ∧ t.RefersTo m.space a) ∧
    ∀ x a, m.Mentions x → x.assembly = some a → m.Imported x →
      a ∈ p.file.references.toList := by
  refine ⟨fun a => references_of_project hp, ?_⟩
  rintro x a ⟨d, hd, q, hq, w, e, hparse, hpart, hexternal⟩ hassembly himported
  obtain ⟨b, hb⟩ := exists_result_of_forall₂ (drafts_of_project hp) hd
  obtain ⟨ts, hts, -⟩ := means_of_draft hb
  obtain ⟨t, ht⟩ := exists_result_of_forall₂ hts hq
  exact (references_of_project hp).2
    (.inr ⟨d, hd, q, hq, t, ht, refersTo_of_part himported hassembly hparse hpart hexternal ht⟩)

/-- A manifest with one record that holds lists of arrays of the given type from elsewhere. -/
def holding (x : ExternalType) : Manifest :=
  { boxes with types := ⟨[("Widget", x)], List.nodup_singleton _⟩ }

/-- The manifest mentions the type that its lists hold. -/
lemma mentions_holding {x : ExternalType}
    (h : (WrittenType.parse "List<Widget[]>").toOption.any (fun w => w.args.any fun e =>
      (Vocabulary.ofManifest (holding x)).external? e == some x) = true) :
    (holding x).Mentions x := by
  have hd : .ofRecord box ∈ (holding x).definitions := by simp [definitions, holding, boxes]
  refine ⟨.ofRecord box, hd, ⟨"List<Widget[]>", ⟨0, 0⟩⟩, .head _, ?_⟩
  cases hparse : WrittenType.parse "List<Widget[]>" with
  | error e =>
    rw [hparse] at h
    cases h
  | ok w =>
    rw [hparse, Except.toOption, Option.any_some, List.any_eq_true] at h
    obtain ⟨e, he, hexternal⟩ := h
    exact ⟨w, e, rfl, .arg he .self, beq_iff_eq.1 hexternal⟩

/-- A type from another namespace brings its assembly along, also as an argument. -/
theorem assembly_referred_zeta :
    ∃ p, (holding ⟨some "Zeta.Ui", .classType, some "Zeta"⟩).project = .ok p ∧
      "Zeta" ∈ p.file.references.toList := by
  have hok : (holding ⟨some "Zeta.Ui", .classType, some "Zeta"⟩).project.isOk = true := by
    decide +kernel
  cases hp : (holding ⟨some "Zeta.Ui", .classType, some "Zeta"⟩).project with
  | error e =>
    rw [hp] at hok
    cases hok
  | ok p =>
    refine ⟨p, rfl, (assembly_referred hp).2 ⟨some "Zeta.Ui", .classType, some "Zeta"⟩ "Zeta"
      (mentions_holding ?_) rfl ⟨?_, ?_⟩⟩
    · decide +kernel
    · decide
    · exact ⟨"Zeta.Ui", rfl, by decide, by decide⟩

/-- The assembly of a type that has no namespace is left out, although a declaration mentions the
type. -/
theorem assembly_left_out :
    ∃ p, (holding ⟨none, .classType, some "Acme"⟩).validate = .ok () ∧
      (holding ⟨none, .classType, some "Acme"⟩).project = .ok p ∧
      (holding ⟨none, .classType, some "Acme"⟩).Mentions ⟨none, .classType, some "Acme"⟩ ∧
      "Acme" ∉ p.file.references.toList := by
  have hleft : (holding ⟨none, .classType, some "Acme"⟩).project.toOption.any
      (fun p => !p.file.references.contains "Acme") = true := by
    decide +kernel
  cases hp : (holding ⟨none, .classType, some "Acme"⟩).project with
  | error e =>
    rw [hp] at hleft
    cases hleft
  | ok p =>
    rw [hp] at hleft
    refine ⟨p, by decide +kernel, rfl, mentions_holding (by decide +kernel), ?_⟩
    simpa [References.contains, Except.toOption] using hleft

end Manifest

end SharpSmith
