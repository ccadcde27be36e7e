import Mathlib.Data.List.Induction
import SharpSmith.Proofs.Availability
import SharpSmith.Proofs.Resolution

/-!
# Merged needs

The needs of the declarations of a file are put together in order, and each namespace and assembly
stays where it was first. So which namespaces and assemblies there are does not depend on the order
of the declarations, and the usings, which are sorted, do not depend on it at all.
-/

namespace SharpSmith

namespace Dependencies

/-- A name put at the end of a list without repeats is put there once. -/
lemma insertNew_eraseDups {x : String} {xs : List String} :
    Text.insertNew x xs.eraseDups = (xs ++ [x]).eraseDups := by
  rw [List.eraseDups_append, Text.insertNew]
  by_cases hx : x ∈ xs
  · have hnone : [x].removeAll xs = [] := by simp [List.removeAll, hx]
    rw [if_pos (by simpa using hx), hnone, List.eraseDups_nil, List.append_nil]
  · have hone : [x].removeAll xs = [x] := by simp [List.removeAll, hx]
    rw [if_neg (by simpa using hx), hone, List.eraseDups_cons]
    rfl

/-- Names put at the end of a list one after the other are put there without repeats. -/
lemma foldl_insertNew (xs ys : List String) :
    xs.foldl (fun zs x => Text.insertNew x zs) ys.eraseDups = (ys ++ xs).eraseDups := by
  induction xs generalizing ys with
  | nil => rw [List.foldl_nil, List.append_nil]
  | cons x xs ih =>
    rw [List.foldl_cons, insertNew_eraseDups, ih, List.append_assoc]
    rfl

/-- No name is left twice. -/
lemma nodup_eraseDups (xs : List String) : xs.eraseDups.Nodup := by
  induction xs using List.reverseRecOn with
  | nil => exact List.nodup_nil
  | append_singleton xs x ih =>
    rw [← insertNew_eraseDups]
    exact nodup_insertNew ih

/-- A list without repeats is left as it is. -/
lemma eraseDups_of_nodup {xs : List String} (h : xs.Nodup) : xs.eraseDups = xs := by
  induction xs with
  | nil => rfl
  | cons x xs ih =>
    obtain ⟨hx, hxs⟩ := List.nodup_cons.1 h
    have hkept : xs.filter (fun y => !y == x) = xs := by
      rw [List.filter_eq_self]
      intro y hy
      simpa using ne_of_mem_of_not_mem hy hx
    rw [List.eraseDups_cons, hkept, ih hxs]

/-- The order of a list decides the order, not which names are left. -/
lemma perm_eraseDups {xs ys : List String} (h : xs.Perm ys) :
    xs.eraseDups.Perm ys.eraseDups := by
  rw [List.perm_ext_iff_of_nodup (nodup_eraseDups xs) (nodup_eraseDups ys)]
  intro x
  rw [List.mem_eraseDups, List.mem_eraseDups, h.mem_iff]

/-- Recording names without white space at their ends puts those among the namespaces that are not
the owner's. -/
lemma foldl_addNamespace_eq {r : Dependencies} {names : List String}
    (h : ∀ x ∈ names, Stripped x) :
    names.foldl addNamespace r =
      { r with namespaces :=
          (names.filter (· != r.owner)).foldl (fun zs x => Text.insertNew x zs) r.namespaces } := by
  induction names generalizing r with
  | nil => rfl
  | cons x xs ih =>
    obtain ⟨hx, hxs⟩ := List.forall_mem_cons.1 h
    have hadd : r.addNamespace x =
        if x = r.owner then r else { r with namespaces := Text.insertNew x r.namespaces } := by
      rw [addNamespace, ← trimmed, hx.trimmed]
      simp [hx.notEmpty]
    rw [List.foldl_cons, hadd]
    split
    case isTrue howner => rw [ih hxs, List.filter_cons_of_neg (by simpa using howner)]
    case isFalse howner =>
      rw [ih hxs, List.filter_cons_of_pos (by simpa using howner), List.foldl_cons]

/-- Putting the needs of several together lists the needs of each after those of the ones before,
what is there already and the owner's namespace apart. -/
lemma foldl_union_eq {r : Dependencies} {ds : List Dependencies}
    (h : ∀ d ∈ ds, ∀ x ∈ d.namespaces, Stripped x) :
    ds.foldl union r =
      ⟨r.owner,
        ((ds.flatMap namespaces).filter (· != r.owner)).foldl
          (fun zs x => Text.insertNew x zs) r.namespaces,
        (ds.flatMap artifacts).foldl (fun zs x => Text.insertNew x zs) r.artifacts⟩ := by
  induction ds generalizing r with
  | nil => rfl
  | cons d ds ih =>
    obtain ⟨hd, hds⟩ := List.forall_mem_cons.1 h
    rw [List.foldl_cons, ih hds, union, foldl_addNamespace_eq hd]
    simp only [List.flatMap_cons, List.filter_append, List.foldl_append]

/-- Of two usings only one comes before the other. -/
lemma UsingLt.asymm {a b : String} (h : UsingLt a b) : ¬UsingLt b a := by
  rcases h with ⟨ha, hb⟩ | ⟨hab, hlt⟩
  · rintro (⟨-, ha'⟩ | ⟨hba, -⟩)
    · rw [ha] at ha'
      cases ha'
    · rw [ha, hb] at hba
      cases hba
  · rintro (⟨hb, ha⟩ | ⟨-, hgt⟩)
    · rw [hb, ha] at hab
      cases hab
    · exact lt_asymm hlt hgt

/-- Needs with the same namespaces have the same usings, whatever the order. -/
lemma sorted_eq_of_perm {r s : Dependencies} (hr : r.namespaces.Nodup)
    (h : r.namespaces.Perm s.namespaces) : r.sorted = s.sorted := by
  refine List.Perm.eq_of_pairwise (fun a b _ _ hab hba => absurd hba hab.asymm)
    (sorted_pairwise hr) (sorted_pairwise (h.nodup_iff.1 hr)) ?_
  exact (List.mergeSort_perm _ _).trans (h.trans (List.mergeSort_perm _ _).symm)

end Dependencies

namespace Build

open Dependencies

/-- The namespaces that declarations need, in order and with repeats. -/
def neededNamespaces (ds : List AnyDraft) : List String :=
  ds.flatMap fun d => d.dependencies.namespaces

/-- The assemblies that declarations need, in order and with repeats. -/
def neededArtifacts (ds : List AnyDraft) : List String :=
  ds.flatMap fun d => d.dependencies.artifacts

variable {f g : FileDraft} {space : String}

/-- The needs of a file are those of its declarations without repeats. -/
lemma dependencies_eq (hspace : f.space? = some space)
    (h : ∀ d ∈ f.declarations, ∀ x ∈ d.dependencies.namespaces, Stripped x) :
    f.dependencies =
      ⟨space, ((neededNamespaces f.declarations).filter (· != space)).eraseDups,
        (neededArtifacts f.declarations).eraseDups⟩ := by
  have hfold (xs : List String) : xs.foldl (fun zs x => Text.insertNew x zs) [] = xs.eraseDups :=
    foldl_insertNew xs []
  rw [FileDraft.dependencies, foldl_union_eq (List.forall_mem_map.2 h), hspace]
  simp only [Dependencies.new, Option.getD_some, List.flatMap_map, hfold]
  rfl

/-- A file refers to the assemblies that its declarations need and then to those of the runtime,
without repeats. -/
lemma references_eq (f : FileDraft) :
    f.references.toList = (f.dependencies.artifacts ++ References.runtime.toList).eraseDups := by
  have hfirst : (References.ofList f.dependencies.artifacts).toList =
      f.dependencies.artifacts.eraseDups := foldl_insertNew _ []
  rw [FileDraft.references, References.extend, hfirst]
  exact foldl_insertNew _ _

/-- A file that has a namespace is built, with its needs in the order of usings. -/
lemma usings_of_build (hspace : f.space? = some space) :
    ∃ file, f.build = .ok file ∧ file.usings = f.dependencies.sorted := by
  rw [FileDraft.build, hspace]
  exact ⟨_, rfl, rfl⟩

/-- The needs of a file are the union of those of its declarations, in order: its namespaces are
those of the declarations without repeats and without its own, its assemblies those of the
declarations without repeats, and it refers to these and to those of the runtime that are not among
them. With the declarations in another order, but still with the same namespace, a file has the same
usings and refers to the same assemblies. -/
theorem merging_is_ordered_union (f : FileDraft) (space : String) (hspace : f.space? = some space)
    (h : ∀ d ∈ f.declarations, ∀ x ∈ d.dependencies.namespaces, Stripped x) :
    f.dependencies.namespaces =
        ((neededNamespaces f.declarations).filter (· != space)).eraseDups ∧
      f.dependencies.artifacts = (neededArtifacts f.declarations).eraseDups ∧
      f.references.toList = f.dependencies.artifacts ++
        References.runtime.toList.filter (fun a => !f.dependencies.artifacts.contains a) ∧
      ∀ g : FileDraft, g.declarations.Perm f.declarations → g.space? = some space →
        (∃ file file', f.build = .ok file ∧ g.build = .ok file' ∧ file'.usings = file.usings) ∧
          g.references.toList.Perm f.references.toList := by
  have hneeds := dependencies_eq hspace h
  refine ⟨by rw [hneeds], by rw [hneeds], ?_, fun g hperm hg => ?_⟩
  · have hruntime : (References.runtime.toList.removeAll f.dependencies.artifacts).Nodup :=
      List.Nodup.filter _ (by decide)
    have hartifacts : f.dependencies.artifacts.Nodup := by
      rw [hneeds]
      exact nodup_eraseDups _
    rw [references_eq, List.eraseDups_append, eraseDups_of_nodup hruntime,
      eraseDups_of_nodup hartifacts]
    rfl
  · have hneeds' := dependencies_eq hg fun d hd => h d (hperm.mem_iff.1 hd)
    constructor
    · obtain ⟨file, hfile, husings⟩ := usings_of_build hspace
      obtain ⟨file', hfile', husings'⟩ := usings_of_build hg
      refine ⟨file, file', hfile, hfile', ?_⟩
      rw [husings, husings', hneeds, hneeds']
      refine sorted_eq_of_perm (nodup_eraseDups _) (perm_eraseDups ?_)
      exact (hperm.flatMap_right _).filter _
    · rw [references_eq, references_eq, hneeds, hneeds']
      exact perm_eraseDups ((perm_eraseDups (hperm.flatMap_right _)).append_right _)

/-- A record made for the namespace `First` that takes a type from elsewhere. -/
def taking (name origin assembly : String) : Script :=
  ⟨.recordDecl, name, "First",
    [.plain (.parameter "Value" ⟨"Order", some origin, .classType, some assembly, []⟩)]⟩

/-- Records that take types from two namespaces, from one of them twice. -/
def takers : List AnyDraft :=
  [taking "A" "Sales" "Acme", taking "B" "System" "System.Runtime", taking "C" "Sales" "Zeta"].map
    Script.draft

/-- Three declarations merged in the other order bring the same usings. -/
theorem merging_is_ordered_union_takers :
    (FileDraft.mk takers .file .standard).dependencies.namespaces = ["Sales", "System"] ∧
      (FileDraft.mk takers .file .standard).references.toList =
        ["Acme", "System.Runtime", "Zeta", "System.Console", "System.Private.CoreLib"] ∧
      ∃ file file', (FileDraft.mk takers .file .standard).build = .ok file ∧
        (FileDraft.mk takers.reverse .file .standard).build = .ok file' ∧
        file'.usings = file.usings := by
  have hneat : ∀ d ∈ takers, ∀ x ∈ d.dependencies.namespaces, Stripped x := by
    have hnames : ∀ d ∈ takers, ∀ x ∈ d.dependencies.namespaces, x = "Sales" ∨ x = "System" := by
      decide +kernel
    intro d hd x hx
    rcases hnames d hd x hx with rfl | rfl <;> refine ⟨by decide, ?_, ?_⟩ <;>
      (rintro c ⟨⟩; decide)
  obtain ⟨hnamespaces, hartifacts, hreferences, hperm⟩ :=
    merging_is_ordered_union ⟨takers, .file, .standard⟩ "First" rfl hneat
  refine ⟨hnamespaces.trans (by decide +kernel), ?_, ?_⟩
  · rw [hreferences, hartifacts]
    decide +kernel
  · exact (hperm ⟨takers.reverse, .file, .standard⟩ (List.reverse_perm _) rfl).1

end Build

end SharpSmith
