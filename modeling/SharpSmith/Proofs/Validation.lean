import Mathlib.Data.List.Nodup
import SharpSmith.Manifest.Validity
import SharpSmith.Proofs.Naming
import SharpSmith.Proofs.Outcome

/-!
# Valid manifests

What the checks of a manifest accept, check by check. Put together: a manifest is valid just if its
namespaces are ones, every name in it is an identifier, and no two declarations and no two
parameters of one list have the same name.
-/

namespace SharpSmith

/-- Names that differ from each other and from those seen before. -/
structure Fresh (seen names : List Quoted) : Prop where
  distinct : (names.map Quoted.value).Nodup
  unseen : ∀ n ∈ names, ∀ s ∈ seen, s.value ≠ n.value

/-- No names are fresh. -/
lemma fresh_nil {seen} : Fresh seen [] :=
  ⟨List.nodup_nil, by simp⟩

/-- A first name is fresh and becomes one of those seen. -/
lemma fresh_cons_iff {seen n names} :
    Fresh seen (n :: names) ↔ (∀ s ∈ seen, s.value ≠ n.value) ∧ Fresh (seen ++ [n]) names := by
  have hunseen : (∀ x ∈ names, ∀ s ∈ seen ++ [n], s.value ≠ x.value) ↔
      (∀ x ∈ names, ∀ s ∈ seen, s.value ≠ x.value) ∧ n.value ∉ names.map Quoted.value := by
    simp only [List.forall_mem_append, List.forall_mem_singleton, List.mem_map, not_exists,
      not_and, forall_and]
    exact and_congr_right fun _ => forall₂_congr fun _ _ => ne_comm
  constructor
  · rintro ⟨hdistinct, hfresh⟩
    rw [List.map_cons, List.nodup_cons] at hdistinct
    rw [List.forall_mem_cons] at hfresh
    exact ⟨hfresh.1, hdistinct.2, hunseen.2 ⟨hfresh.2, hdistinct.1⟩⟩
  · rintro ⟨hn, hdistinct, hfresh⟩
    obtain ⟨hnames, hnew⟩ := hunseen.1 hfresh
    refine ⟨?_, List.forall_mem_cons.2 ⟨hn, hnames⟩⟩
    rw [List.map_cons, List.nodup_cons]
    exact ⟨hnew, hdistinct⟩

/-- Where nothing was seen before, names only have to differ from each other. -/
lemma fresh_iff {names} : Fresh [] names ↔ (names.map Quoted.value).Nodup :=
  ⟨Fresh.distinct, fun h => ⟨h, by simp⟩⟩

/-- The parameters of one list are named as they have to be: by identifiers that differ. -/
structure ParametersNamed (ps : List ParameterEntry) : Prop where
  identifiers : ∀ p ∈ ps, IsIdentifier p.name.value.toList
  distinct : (ps.map fun p => p.name.value).Nodup

namespace Definition

/-- The lists of parameters of a declaration: those of its methods, then those of its constructors
or its primary one. -/
def parameterLists (d : Definition) : List (List ParameterEntry) :=
  d.methods.map MethodEntry.parameters ++
    match d with
    | .ofClass c => c.constructors.map ConstructorEntry.parameters
    | .ofRecord r => [r.parameters]
    | .ofInterface _ => []

/-- A declaration and its members are named as they have to be. -/
structure WellNamed (d : Definition) : Prop where
  name : IsIdentifier d.name.value.toList
  properties : ∀ p ∈ d.properties, IsIdentifier p.name.value.toList
  methods : ∀ m ∈ d.methods, IsIdentifier m.name.value.toList
  parameters : ∀ ps ∈ d.parameterLists, ParametersNamed ps

end Definition

namespace Manifest

/-- All declarations, kind by kind. -/
def declarations (m : Manifest) : List Definition :=
  m.classes.map .ofClass ++ m.interfaces.map .ofInterface ++ m.records.map .ofRecord

/-- The names in a manifest are as they have to be. -/
structure WellNamed (m : Manifest) : Prop where
  space : m.space = "" ∨ IsNamespace m.space.toList
  types : ∀ e ∈ m.types.entries, IsIdentifier e.1.toList ∧
    ∀ space ∈ e.2.space, space = "" ∨ IsNamespace space.toList
  declarations : ∀ d ∈ m.declarations, d.WellNamed
  distinct : (m.declarations.map fun d => d.name.value).Nodup

/-- The order in which names are written is one of the declarations. -/
lemma definitions_perm (m : Manifest) : m.definitions.Perm m.declarations :=
  List.mergeSort_perm _ _

/-- A name passes the check just if it is an identifier. -/
lemma checkName_eq_ok_iff {d path thing name} :
    checkName d path thing name = .ok () ↔ IsIdentifier name.value.toList := by
  rw [← identifierFault?_eq_none_iff, checkName]
  change _ ↔ Identifier.fault? name.value = none
  split
  case isTrue hk =>
    refine iff_of_false nofun fun h => ?_
    have hfree := (identifierFault?_eq_none_iff.1 h).isKeyword
    rw [String.ofList_toList, hk] at hfree
    cases hfree
  case isFalse =>
    split
    case h_1 he => exact iff_of_false nofun (by rw [he]; exact nofun)
    case h_2 he => exact iff_of_true rfl he

/-- A name passes the check just if none of those seen is the same. -/
lemma checkFresh_eq_ok_iff {d seen name} :
    checkFresh d seen name = .ok () ↔ ∀ s ∈ seen, s.value ≠ name.value := by
  have hnone : seen.find? (fun s => s.value == name.value) = none ↔
      ∀ s ∈ seen, s.value ≠ name.value := by
    simp
  rw [← hnone, checkFresh]
  split
  case h_1 he => exact iff_of_false nofun (by rw [he]; exact nofun)
  case h_2 he => exact iff_of_true rfl he

/-- Parameters pass the check just if their names are identifiers and fresh. -/
lemma checkParameters_eq_ok_iff {d path seen ps} :
    checkParameters d path seen ps = .ok () ↔
      (∀ p ∈ ps, IsIdentifier p.name.value.toList) ∧ Fresh seen (ps.map ParameterEntry.name) := by
  induction ps generalizing seen with
  | nil => exact iff_of_true rfl ⟨by simp, fresh_nil⟩
  | cons p ps ih =>
    simp only [checkParameters, check_bind_eq_ok_iff, checkName_eq_ok_iff,
      checkFresh_eq_ok_iff, ih, List.map_cons, fresh_cons_iff, List.forall_mem_cons]
    tauto

/-- What is seen in one list does not matter to another. -/
lemma checkParameters_nil_iff {d path ps} :
    checkParameters d path [] ps = .ok () ↔ ParametersNamed ps := by
  rw [checkParameters_eq_ok_iff, fresh_iff, List.map_map]
  exact ⟨fun ⟨h₁, h₂⟩ => ⟨h₁, h₂⟩, fun ⟨h₁, h₂⟩ => ⟨h₁, h₂⟩⟩

/-- A method passes the check just if its name and its parameters do. -/
lemma checkMethod_eq_ok_iff {d path} {m : MethodEntry} :
    checkMethod d path m = .ok () ↔
      IsIdentifier m.name.value.toList ∧ ParametersNamed m.parameters := by
  simp only [checkMethod, check_bind_eq_ok_iff, checkName_eq_ok_iff, checkParameters_nil_iff]

/-- Members pass the check just if all their names are as they have to be. -/
lemma checkMembers_eq_ok_iff {d} {x : Definition} :
    checkMembers d x = .ok () ↔
      (∀ p ∈ x.properties, IsIdentifier p.name.value.toList) ∧
        (∀ m ∈ x.methods, IsIdentifier m.name.value.toList) ∧
          ∀ ps ∈ x.parameterLists, ParametersNamed ps := by
  simp only [checkMembers, check_bind_eq_ok_iff, forM_eq_ok_iff, checkName_eq_ok_iff,
    checkMethod_eq_ok_iff, Definition.parameterLists, List.forall_mem_append, List.forall_mem_map,
    forall₂_and, and_assoc]
  refine and_congr_right fun _ => and_congr_right fun _ => and_congr_right fun _ => ?_
  cases x with
  | ofClass c =>
    simp only [forM_eq_ok_iff, checkParameters_nil_iff, List.forall_mem_map]
  | ofRecord r =>
    simp only [checkParameters_nil_iff, List.forall_mem_singleton]
  | ofInterface => exact iff_of_true rfl (by simp)

/-- Declarations pass the check just if they are well named and their names fresh. -/
lemma checkDefinitions_eq_ok_iff {d seen} {xs : List Definition} :
    checkDefinitions d seen xs = .ok () ↔
      (∀ x ∈ xs, x.WellNamed) ∧ Fresh seen (xs.map Definition.name) := by
  induction xs generalizing seen with
  | nil => exact iff_of_true rfl ⟨by simp, fresh_nil⟩
  | cons x xs ih =>
    simp only [checkDefinitions, check_bind_eq_ok_iff, checkName_eq_ok_iff,
      checkFresh_eq_ok_iff, checkMembers_eq_ok_iff, ih, List.map_cons, fresh_cons_iff,
      List.forall_mem_cons]
    constructor
    · rintro ⟨hname, hfresh, ⟨hproperties, hmethods, hparameters⟩, hxs, hrest⟩
      exact ⟨⟨⟨hname, hproperties, hmethods, hparameters⟩, hxs⟩, hfresh, hrest⟩
    · rintro ⟨⟨⟨hname, hproperties, hmethods, hparameters⟩, hxs⟩, hfresh, hrest⟩
      exact ⟨hname, hfresh, ⟨hproperties, hmethods, hparameters⟩, hxs, hrest⟩

/-- A type from elsewhere passes the check just if its name and namespace are names. -/
lemma checkExternal_eq_ok_iff {d name} {type : ExternalType} :
    checkExternal d name type = .ok () ↔
      IsIdentifier name.toList ∧
        ∀ space ∈ type.space, space = "" ∨ IsNamespace space.toList := by
  have hspace : type.space.bind Identifier.namespaceFault? = none ↔
      ∀ space ∈ type.space, space = "" ∨ IsNamespace space.toList := by
    simp only [Option.bind_eq_none_iff, namespaceFault?_eq_none_iff, Option.mem_def]
  rw [← identifierFault?_eq_none_iff, ← hspace, checkExternal]
  change _ ↔ Identifier.fault? name = none ∧ _
  split
  case h_1 he => exact iff_of_false nofun fun h => by rw [he] at h; exact nomatch h.1
  case h_2 he =>
    rw [and_iff_right he]
    split
    case h_1 hs => exact iff_of_false nofun (by rw [hs]; exact nofun)
    case h_2 hs => exact iff_of_true rfl hs

/-- A namespace passes the check just if it is one or empty. -/
lemma checkNamespace_eq_ok_iff {d space} :
    checkNamespace d space = .ok () ↔ space = "" ∨ IsNamespace space.toList := by
  rw [← namespaceFault?_eq_none_iff, checkNamespace]
  split
  case h_1 he => exact iff_of_false nofun (by rw [he]; exact nofun)
  case h_2 he => exact iff_of_true rfl he

/-- A manifest passes just if its checks do, on the declarations in the order of their names. -/
lemma validate_eq_ok_iff {m : Manifest} :
    m.validate = .ok () ↔
      (m.space = "" ∨ IsNamespace m.space.toList) ∧
        (∀ e ∈ m.types.entries, IsIdentifier e.1.toList ∧
          ∀ space ∈ e.2.space, space = "" ∨ IsNamespace space.toList) ∧
        (∀ d ∈ m.definitions, d.WellNamed) ∧
          (m.definitions.map fun d => d.name.value).Nodup := by
  simp only [validate, check_bind_eq_ok_iff, forM_eq_ok_iff, checkNamespace_eq_ok_iff,
    checkExternal_eq_ok_iff, checkDefinitions_eq_ok_iff, fresh_iff, List.map_map]
  rfl

/-- A manifest is valid just if its namespace and those of its `[types]` are empty or ones, every
name in it is an identifier, and neither two declarations nor two parameters of one list share
their name. -/
theorem validate_iff (m : Manifest) : m.validate = .ok () ↔ m.WellNamed := by
  have horder := m.definitions_perm
  have hnamed : (∀ d ∈ m.definitions, d.WellNamed) ↔ ∀ d ∈ m.declarations, d.WellNamed :=
    forall_congr' fun d => by rw [horder.mem_iff]
  rw [validate_eq_ok_iff, hnamed, (horder.map _).nodup_iff]
  exact ⟨fun ⟨hspace, htypes, hnamed, hdistinct⟩ => ⟨hspace, htypes, hnamed, hdistinct⟩,
    fun h => ⟨h.space, h.types, h.declarations, h.distinct⟩⟩

end Manifest

end SharpSmith
