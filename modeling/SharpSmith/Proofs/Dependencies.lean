import Mathlib.Data.List.Nodup
import Mathlib.Data.String.Basic
import Mathlib.Tactic.Common
import SharpSmith.Dependencies

/-!
# What dependencies hold

Recording types and putting dependencies together say which namespaces and assemblies end up among
the needs, and nothing else gets there; `sorted` puts them in an order that is strict, since no
namespace is recorded twice.
-/

namespace SharpSmith

/-- The nodes of a type that call for an import of the namespace `space`. -/
def TypeRef.Imports (t : TypeRef) (space : String) : Prop :=
  ∃ n ∈ t.nodes, n.isBuiltIn = false ∧ n.origin = some space

/-- The nodes of a type that call for an assembly: those from outside of the namespace `owner` that
the assembly backs. -/
def TypeRef.RefersTo (t : TypeRef) (owner artifact : String) : Prop :=
  ∃ n ∈ t.nodes, n.isBuiltIn = false ∧ (∃ space, n.origin = some space ∧ space ≠ owner) ∧
    n.artifact = some artifact

namespace Dependencies

/-- What is put in is there, with what was there. -/
lemma mem_insertNew {x y xs} : y ∈ Text.insertNew x xs ↔ y ∈ xs ∨ y = x := by
  unfold Text.insertNew
  split
  case isTrue h =>
    have hx : x ∈ xs := by simpa using h
    exact ⟨.inl, fun h => h.elim id (· ▸ hx)⟩
  case isFalse => simp

/-- What is there already is not put in again. -/
lemma nodup_insertNew {x xs} (h : xs.Nodup) : (Text.insertNew x xs).Nodup := by
  unfold Text.insertNew
  split
  case isTrue => exact h
  case isFalse hx =>
    have hx : x ∉ xs := by simpa using hx
    exact h.append (List.nodup_singleton x) (by simpa using hx)

/-- Recording a node keeps the owner and puts the namespace of the node among the needs, unless
the node is built in or at home there. -/
lemma addNode_spec {r : Dependencies} {t : TypeRef} :
    (r.addNode t).owner = r.owner ∧
      ((r.namespaces.Nodup → (r.addNode t).namespaces.Nodup)) ∧
      ∀ space, space ∈ (r.addNode t).namespaces ↔
        space ∈ r.namespaces ∨ t.isBuiltIn = false ∧ t.origin = some space ∧ space ≠ r.owner := by
  unfold addNode
  split
  case h_2 ho => simp [ho]
  case h_1 origin ho =>
    split
    case isTrue hb =>
      refine ⟨rfl, id, fun space => ⟨.inl, ?_⟩⟩
      rintro (h | ⟨hn, e, hne⟩)
      · exact h
      · rw [ho] at e
        cases e
        simp [hn, hne] at hb
    case isFalse hb =>
      simp only [Bool.or_eq_true, not_or, Bool.not_eq_true, beq_eq_false_iff_ne] at hb
      refine ⟨rfl, nodup_insertNew, fun space => ?_⟩
      rw [mem_insertNew, ho, Option.some_inj]
      constructor
      · rintro (h | rfl)
        · exact .inl h
        · exact .inr ⟨hb.1, rfl, hb.2⟩
      · rintro (h | ⟨-, rfl, -⟩)
        · exact .inl h
        · exact .inr rfl

/-- Recording nodes keeps the owner and puts their namespaces among the needs. -/
lemma foldl_addNode_spec {r : Dependencies} (ns : List TypeRef) :
    (ns.foldl addNode r).owner = r.owner ∧
      (r.namespaces.Nodup → (ns.foldl addNode r).namespaces.Nodup) ∧
      ∀ space, space ∈ (ns.foldl addNode r).namespaces ↔
        space ∈ r.namespaces ∨
          space ≠ r.owner ∧ ∃ n ∈ ns, n.isBuiltIn = false ∧ n.origin = some space := by
  induction ns generalizing r with
  | nil => simp
  | cons n ns ih =>
    obtain ⟨howner, hnodup, hmem⟩ := addNode_spec (r := r) (t := n)
    obtain ⟨ihowner, ihnodup, ihmem⟩ := ih (r := r.addNode n)
    rw [List.foldl_cons]
    refine ⟨ihowner.trans howner, fun h => ihnodup (hnodup h), fun space => ?_⟩
    rw [ihmem, hmem, howner]
    constructor
    · rintro ((h | ⟨hb, ho, hne⟩) | ⟨hne, m, hm, h⟩)
      · exact .inl h
      · exact .inr ⟨hne, n, .head _, hb, ho⟩
      · exact .inr ⟨hne, m, .tail _ hm, h⟩
    · rintro (h | ⟨hne, m, hm, hb, ho⟩)
      · exact .inl (.inl h)
      · cases hm with
        | head => exact .inl (.inr ⟨hb, ho, hne⟩)
        | tail _ hm => exact .inr ⟨hne, m, hm, hb, ho⟩

/-- The needs after some types have been recorded. -/
def addAll (r : Dependencies) (ts : List TypeRef) : Dependencies :=
  ts.foldl add r

/-- Recording no types changes nothing. -/
@[simp] lemma addAll_nil {r : Dependencies} : r.addAll [] = r := rfl

/-- Recording a list of one type records the type. -/
@[simp] lemma addAll_singleton {r : Dependencies} {t} : r.addAll [t] = r.add t := rfl

/-- Types after others are recorded after them. -/
lemma addAll_append {r : Dependencies} {ts us} :
    r.addAll (ts ++ us) = (r.addAll ts).addAll us :=
  List.foldl_append

/-- Recording types is recording their nodes. -/
lemma addAll_eq_foldl {r : Dependencies} (ts : List TypeRef) :
    r.addAll ts = (ts.flatMap TypeRef.nodes).foldl addNode r := by
  induction ts generalizing r with
  | nil => rfl
  | cons t ts ih =>
    rw [List.flatMap_cons, List.foldl_append]
    exact ih

/-- Recording types keeps the owner and puts the namespaces of their nodes among the needs. -/
lemma addAll_spec {r : Dependencies} (ts : List TypeRef) :
    (r.addAll ts).owner = r.owner ∧
      (r.namespaces.Nodup → (r.addAll ts).namespaces.Nodup) ∧
      ∀ space, space ∈ (r.addAll ts).namespaces ↔
        space ∈ r.namespaces ∨ space ≠ r.owner ∧ ∃ t ∈ ts, t.Imports space := by
  obtain ⟨howner, hnodup, hmem⟩ := foldl_addNode_spec (r := r) (ts.flatMap TypeRef.nodes)
  rw [addAll_eq_foldl]
  refine ⟨howner, hnodup, fun space => ?_⟩
  rw [hmem]
  simp only [TypeRef.Imports, List.mem_flatMap]
  constructor
  · rintro (h | ⟨hne, n, ⟨t, ht, hn⟩, h⟩)
    · exact .inl h
    · exact .inr ⟨hne, t, ht, n, hn, h⟩
  · rintro (h | ⟨hne, t, ht, n, hn, h⟩)
    · exact .inl h
    · exact .inr ⟨hne, n, ⟨t, ht, hn⟩, h⟩

/-- A type brings its assembly along just if it calls for an import. -/
lemma mem_addNode_artifacts {r : Dependencies} {t : TypeRef} {artifact} :
    artifact ∈ (r.addNode t).artifacts ↔
      artifact ∈ r.artifacts ∨
        t.isBuiltIn = false ∧ (∃ space, t.origin = some space ∧ space ≠ r.owner) ∧
          t.artifact = some artifact := by
  unfold addNode
  cases ho : t.origin with
  | none => simp
  | some origin =>
    cases hb : t.isBuiltIn with
    | true => simp
    | false =>
      by_cases hown : origin = r.owner
      · simp [hown]
      · cases ha : t.artifact with
        | none => simp [hown]
        | some backing =>
          dsimp only
          rw [if_neg (by simpa using hown), mem_insertNew]
          constructor
          · rintro (h | rfl)
            · exact .inl h
            · exact .inr ⟨rfl, ⟨origin, rfl, hown⟩, rfl⟩
          · rintro (h | ⟨-, -, h⟩)
            · exact .inl h
            · exact .inr (Option.some_inj.1 h).symm

/-- Recording types puts the assemblies of their nodes among the needs, with the same nodes left
out as for the namespaces. -/
lemma mem_addAll_artifacts {r : Dependencies} {ts : List TypeRef} {artifact} :
    artifact ∈ (r.addAll ts).artifacts ↔
      artifact ∈ r.artifacts ∨ ∃ t ∈ ts, t.RefersTo r.owner artifact := by
  have nodes : ∀ (ns : List TypeRef) (r : Dependencies),
      artifact ∈ (ns.foldl addNode r).artifacts ↔
        artifact ∈ r.artifacts ∨ ∃ n ∈ ns, n.isBuiltIn = false ∧
          (∃ space, n.origin = some space ∧ space ≠ r.owner) ∧ n.artifact = some artifact := by
    intro ns
    induction ns with
    | nil => simp
    | cons n ns ih =>
      intro r
      have howner : (r.addNode n).owner = r.owner := addNode_spec.1
      rw [List.foldl_cons, ih, mem_addNode_artifacts, howner, List.exists_mem_cons_iff, or_assoc]
  rw [addAll_eq_foldl, nodes]
  simp only [TypeRef.RefersTo, List.mem_flatMap]
  constructor
  · rintro (h | ⟨n, ⟨t, ht, hn⟩, h⟩)
    · exact .inl h
    · exact .inr ⟨t, ht, n, hn, h⟩
  · rintro (h | ⟨t, ht, n, hn, h⟩)
    · exact .inl h
    · exact .inr ⟨n, ⟨t, ht, hn⟩, h⟩

/-- A name without the white space at its ends. -/
def trimmed (text : String) : String :=
  String.ofList (Text.trim text.toList)

/-- Recording a namespace by name puts it among the needs without the white space at its ends,
unless nothing is left of it or it is the owner's. -/
lemma addNamespace_spec {r : Dependencies} {text} :
    (r.addNamespace text).owner = r.owner ∧
      (r.namespaces.Nodup → (r.addNamespace text).namespaces.Nodup) ∧
      ∀ space, space ∈ (r.addNamespace text).namespaces ↔
        space ∈ r.namespaces ∨ space ≠ "" ∧ space ≠ r.owner ∧ trimmed text = space := by
  unfold addNamespace
  dsimp only
  rw [← trimmed]
  split
  case isTrue h =>
    refine ⟨rfl, id, fun space => ⟨.inl, ?_⟩⟩
    rintro (hmem | ⟨hne, howner, rfl⟩)
    · exact hmem
    · simp [hne, howner] at h
  case isFalse h =>
    simp only [String.isEmpty_iff, Bool.or_eq_true, beq_iff_eq, not_or] at h
    refine ⟨rfl, nodup_insertNew, fun space => ?_⟩
    rw [mem_insertNew]
    constructor
    · rintro (hmem | rfl)
      · exact .inl hmem
      · exact .inr ⟨h.1, h.2, rfl⟩
    · rintro (hmem | ⟨-, -, e⟩)
      · exact .inl hmem
      · exact .inr e.symm

/-- Putting needs together keeps the owner, leaves its namespace out and trims all others. -/
lemma union_spec {r other : Dependencies} :
    (r.union other).owner = r.owner ∧
      (r.namespaces.Nodup → (r.union other).namespaces.Nodup) ∧
      ∀ space, space ∈ (r.union other).namespaces ↔
        space ∈ r.namespaces ∨
          space ≠ "" ∧ space ≠ r.owner ∧ ∃ x ∈ other.namespaces, trimmed x = space := by
  show (other.namespaces.foldl addNamespace r).owner = r.owner ∧
    (r.namespaces.Nodup → (other.namespaces.foldl addNamespace r).namespaces.Nodup) ∧
    ∀ space, space ∈ (other.namespaces.foldl addNamespace r).namespaces ↔ _
  induction other.namespaces generalizing r with
  | nil => simp
  | cons x xs ih =>
    obtain ⟨howner, hnodup, hmem⟩ := @addNamespace_spec r x
    obtain ⟨ihowner, ihnodup, ihmem⟩ := ih (r := r.addNamespace x)
    rw [List.foldl_cons]
    refine ⟨ihowner.trans howner, fun h => ihnodup (hnodup h), fun space => ?_⟩
    rw [ihmem, hmem, howner, or_assoc, List.exists_mem_cons_iff, ← and_or_left, ← and_or_left]

/-- Putting the needs of several together keeps the owner, leaves its namespace out and trims all
others. -/
lemma foldl_union_trimmed {r : Dependencies} {ds : List Dependencies} :
    (ds.foldl union r).owner = r.owner ∧
      (r.namespaces.Nodup → (ds.foldl union r).namespaces.Nodup) ∧
      ∀ space, space ∈ (ds.foldl union r).namespaces ↔
        space ∈ r.namespaces ∨ space ≠ "" ∧ space ≠ r.owner ∧
          ∃ d ∈ ds, ∃ x ∈ d.namespaces, trimmed x = space := by
  induction ds generalizing r with
  | nil => simp
  | cons d ds ih =>
    obtain ⟨howner, hnodup, hmem⟩ := @union_spec r d
    obtain ⟨ihowner, ihnodup, ihmem⟩ := ih (r := r.union d)
    rw [List.foldl_cons]
    refine ⟨ihowner.trans howner, fun h => ihnodup (hnodup h), fun space => ?_⟩
    rw [ihmem, hmem, howner, or_assoc, List.exists_mem_cons_iff, ← and_or_left, ← and_or_left]

/-- A namespace that has a name without white space. -/
structure Clean (space : String) : Prop where
  notEmpty : space ≠ ""
  noBlank : ∀ c ∈ space.toList, Text.isBlank c = false

/-- A name that is not empty and has no white space at its ends. -/
structure Stripped (name : String) : Prop where
  notEmpty : name ≠ ""
  starts : ∀ c ∈ name.toList.head?, Text.isBlank c = false
  ends : ∀ c ∈ name.toList.getLast?, Text.isBlank c = false

/-- A namespace that has a name without white space has none at its ends. -/
lemma Clean.stripped {space : String} (h : Clean space) : Stripped space :=
  ⟨h.notEmpty, fun c hc => h.noBlank c (List.mem_of_mem_head? hc),
    fun c hc => h.noBlank c (List.mem_of_mem_getLast? hc)⟩

/-- Nothing is trimmed of a text that does not start with white space. -/
lemma dropWhile_of_head? {cs : List Char} (h : ∀ c ∈ cs.head?, Text.isBlank c = false) :
    cs.dropWhile Text.isBlank = cs := by
  cases cs with
  | nil => rfl
  | cons c cs => rw [List.dropWhile_cons_of_neg (by simp [h c rfl])]

/-- A name without white space at its ends is not trimmed. -/
lemma Stripped.trimmed {name : String} (h : Stripped name) : trimmed name = name := by
  have hends : ∀ c ∈ name.toList.reverse.head?, Text.isBlank c = false := by
    rw [List.head?_reverse]
    exact h.ends
  rw [Dependencies.trimmed, Text.trim, Text.trimStart, dropWhile_of_head? h.starts, Text.trimEnd,
    dropWhile_of_head? hends, List.reverse_reverse, String.ofList_toList]

/-- A namespace that has a name without white space is trimmed to itself. -/
lemma Clean.trimmed {space : String} (h : Clean space) : trimmed space = space :=
  h.stripped.trimmed

/-- Putting the clean needs of several together keeps the owner and leaves its namespace out. -/
lemma foldl_union_spec {r : Dependencies} {ds : List Dependencies}
    (hc : ∀ d ∈ ds, ∀ x ∈ d.namespaces, Clean x) :
    (ds.foldl union r).owner = r.owner ∧
      (r.namespaces.Nodup → (ds.foldl union r).namespaces.Nodup) ∧
      ∀ space, space ∈ (ds.foldl union r).namespaces ↔
        space ∈ r.namespaces ∨ space ≠ r.owner ∧ ∃ d ∈ ds, space ∈ d.namespaces := by
  obtain ⟨howner, hnodup, hmem⟩ := @foldl_union_trimmed r ds
  refine ⟨howner, hnodup, fun space => ?_⟩
  rw [hmem]
  constructor
  · rintro (h | ⟨-, hne, d, hd, x, hx, rfl⟩)
    · exact .inl h
    · rw [(hc d hd x hx).trimmed] at hne ⊢
      exact .inr ⟨hne, d, hd, hx⟩
  · rintro (h | ⟨hne, d, hd, hx⟩)
    · exact .inl h
    · exact .inr ⟨(hc d hd space hx).notEmpty, hne, d, hd, space, hx, (hc d hd space hx).trimmed⟩

/-- Names put at the end of a list one after the other are there, and so is what was there. -/
lemma mem_foldl_insertNew {xs ys : List String} {y} :
    y ∈ xs.foldl (fun zs x => Text.insertNew x zs) ys ↔ y ∈ ys ∨ y ∈ xs := by
  induction xs generalizing ys with
  | nil => simp
  | cons x xs ih => rw [List.foldl_cons, ih, mem_insertNew, or_assoc, List.mem_cons]

/-- Recording namespaces by name leaves the assemblies as they are. -/
lemma foldl_addNamespace_artifacts {r : Dependencies} {names : List String} :
    (names.foldl addNamespace r).artifacts = r.artifacts := by
  induction names generalizing r with
  | nil => rfl
  | cons name names ih =>
    rw [List.foldl_cons, ih]
    unfold addNamespace
    dsimp only
    split <;> rfl

/-- Putting the needs of several together keeps all assemblies. -/
lemma mem_foldl_union_artifacts {r : Dependencies} {ds : List Dependencies} {artifact} :
    artifact ∈ (ds.foldl union r).artifacts ↔
      artifact ∈ r.artifacts ∨ ∃ d ∈ ds, artifact ∈ d.artifacts := by
  induction ds generalizing r with
  | nil => simp
  | cons d ds ih =>
    rw [List.foldl_cons, ih, List.exists_mem_cons_iff, ← or_assoc]
    apply or_congr_left
    show artifact ∈ d.artifacts.foldl _ (d.namespaces.foldl addNamespace r).artifacts ↔ _
    rw [mem_foldl_insertNew, foldl_addNamespace_artifacts]

/-- The strict order of usings: `System` and what is below it come first, and then code points
decide. -/
def UsingLt (a b : String) : Prop :=
  isSystem a = true ∧ isSystem b = false ∨ isSystem a = isSystem b ∧ a < b

/-- What comes before another using differs from it. -/
lemma UsingLt.ne {a b : String} (h : UsingLt a b) : a ≠ b := by
  rintro rfl
  rcases h with ⟨h, h'⟩ | ⟨-, h⟩
  · rw [h] at h'
    cases h'
  · exact lt_irrefl a h

/-- A using is not after another one if it alone is below `System`, or by code points. -/
lemma usingLe_iff {a b : String} :
    usingLe a b = true ↔
      isSystem a = true ∧ isSystem b = false ∨ isSystem a = isSystem b ∧ a ≤ b := by
  unfold usingLe
  cases isSystem a <;> cases isSystem b <;> simp

/-- The order of usings is transitive. -/
lemma usingLe_trans (a b c : String) (h₁ : usingLe a b = true) (h₂ : usingLe b c = true) :
    usingLe a c = true := by
  rw [usingLe_iff] at *
  rcases h₁ with ⟨ha, hb⟩ | ⟨hab, hle⟩
  · rcases h₂ with ⟨hb', -⟩ | ⟨hbc, -⟩
    · rw [hb] at hb'
      cases hb'
    · exact .inl ⟨ha, hbc ▸ hb⟩
  · rcases h₂ with ⟨hb, hc⟩ | ⟨hbc, hle'⟩
    · exact .inl ⟨hab ▸ hb, hc⟩
    · exact .inr ⟨hab.trans hbc, le_trans hle hle'⟩

/-- Of two usings one is not after the other. -/
lemma usingLe_total (a b : String) : (usingLe a b || usingLe b a) = true := by
  unfold usingLe
  cases isSystem a <;> cases isSystem b <;> simp [le_total a b]

/-- A using that is not after another one and differs from it comes before it. -/
lemma usingLt_of_usingLe {a b : String} (h : usingLe a b = true) (hne : a ≠ b) : UsingLt a b := by
  rcases usingLe_iff.1 h with h | ⟨hs, hle⟩
  · exact .inl h
  · exact .inr ⟨hs, lt_of_le_of_ne hle hne⟩

/-- Namespaces that are recorded once each are sorted strictly. -/
lemma sorted_pairwise {r : Dependencies} (h : r.namespaces.Nodup) :
    r.sorted.Pairwise UsingLt := by
  have hle : r.sorted.Pairwise fun a b => usingLe a b = true :=
    List.pairwise_mergeSort usingLe_trans usingLe_total _
  have hne : r.sorted.Pairwise (· ≠ ·) := (List.mergeSort_perm _ _).nodup_iff.2 h
  exact (hle.and hne).imp fun h => usingLt_of_usingLe h.1 h.2

/-- Sorting changes no namespace. -/
@[simp] lemma mem_sorted {r : Dependencies} {space} :
    space ∈ r.sorted ↔ space ∈ r.namespaces :=
  (List.mergeSort_perm _ _).mem_iff

end Dependencies

end SharpSmith
