import Mathlib.Tactic.Common
import SharpSmith.Code

/-!
# Modifiers that are asked for

Modifiers are put into a set one after the other. The set holds them in the order in which modifiers
are written, whichever order they came in: all of them, but of those that say who can see a
declaration only the last one, or the one that there was at the start.
-/

namespace SharpSmith

/-- The place of a modifier in the order in which modifiers are written. -/
def Modifier.rank (m : Modifier) : Nat :=
  Modifier.all.idxOf m

/-- The last visibility that was asked for, or else the one at the start. -/
def Modifier.visibility? (start : Option Modifier) (asked : List Modifier) : Option Modifier :=
  (asked.filter Modifier.isVisibility).getLast?.or start

namespace Modifiers

/-- A modifier that is put in is there, with what was there; of two that say who can see a
declaration only the new one. -/
lemma mem_insert {m x : Modifier} {ms : Modifiers} :
    x ∈ (ms.insert m).toList ↔
      x = m ∨ x ∈ ms.toList ∧ (m.isVisibility = false ∨ x.isVisibility = false) := by
  have hall : x ∈ Modifier.all := by cases x <;> decide
  simp [insert, hall]

/-- Modifiers are written in their order whatever is put in. -/
lemma pairwise_insert (m : Modifier) (ms : Modifiers) :
    (ms.insert m).toList.Pairwise (·.rank < ·.rank) := by
  have hall : Modifier.all.Pairwise (·.rank < ·.rank) := by decide
  exact List.Pairwise.filter _ hall

/-- The set with other modifiers, which are put in one after the other. -/
def insertAll (added : List Modifier) (ms : Modifiers) : Modifiers :=
  added.foldl (fun ms m => ms.insert m) ms

/-- Without other modifiers the set stays as it is. -/
@[simp] lemma insertAll_nil {ms : Modifiers} : ms.insertAll [] = ms := rfl

/-- One other modifier is put in. -/
@[simp] lemma insertAll_singleton {m : Modifier} {ms : Modifiers} :
    ms.insertAll [m] = ms.insert m := rfl

/-- Modifiers that come after others are put in after them. -/
lemma insertAll_append {added more : List Modifier} {ms : Modifiers} :
    ms.insertAll (added ++ more) = (ms.insertAll added).insertAll more :=
  List.foldl_append

/-- What a set holds that starts with a visibility, or with nothing, and that others were asked to
be put into. -/
structure AskedFor (start : Option Modifier) (asked ms : List Modifier) : Prop where
  ordered : ms.Pairwise (·.rank < ·.rank)
  mem_iff : ∀ m, m ∈ ms ↔
    m ∈ asked ∧ m.isVisibility = false ∨ Modifier.visibility? start asked = some m

variable {start : Option Modifier} {asked : List Modifier}

/-- A visibility that is asked for takes the place of those before. -/
lemma visibility?_concat (m : Modifier) :
    Modifier.visibility? start (asked ++ [m]) =
      if m.isVisibility then some m else Modifier.visibility? start asked := by
  rw [Modifier.visibility?, List.filter_append, Modifier.visibility?]
  cases hm : m.isVisibility <;> simp [hm]

/-- Of one visibility that may be asked for, that one counts. -/
lemma visibility?_toList {access : Option Modifier} (h : ∀ m ∈ access, m.isVisibility = true) :
    Modifier.visibility? start access.toList = access.or start := by
  cases access with
  | none => rfl
  | some m =>
    have hm : m.isVisibility = true := h m rfl
    simp [Modifier.visibility?, hm]

/-- What counts as the visibility says who can see a declaration. -/
lemma isVisibility_of_visibility? {m : Modifier} (hstart : ∀ m ∈ start, m.isVisibility = true)
    (hm : Modifier.visibility? start asked = some m) : m.isVisibility = true := by
  rcases Option.or_eq_some_iff.1 hm with hlast | ⟨-, hlast⟩
  · exact (List.mem_filter.1 (List.mem_of_getLast? hlast)).2
  · exact hstart m hlast

namespace AskedFor

/-- At first there is the visibility at the start. -/
lemma ofVisibility (start : Option Modifier) :
    AskedFor start [] (Modifiers.ofVisibility start).toList := by
  cases start with
  | none => exact ⟨.nil, by simp [Modifiers.ofVisibility, Modifiers.none, Modifier.visibility?]⟩
  | some v =>
    refine ⟨pairwise_insert v _, fun m => ?_⟩
    rw [Modifiers.ofVisibility, mem_insert]
    simp only [Modifiers.none, Modifier.visibility?, List.not_mem_nil, false_and, or_false,
      List.filter_nil, List.getLast?_nil, Option.none_or, Option.some_inj, false_or]
    exact eq_comm

/-- A visibility takes the place of the one before, and other modifiers are put to those that are
there. -/
lemma insert {ms : Modifiers} (hstart : ∀ m ∈ start, m.isVisibility = true)
    (h : AskedFor start asked ms.toList) (m : Modifier) :
    AskedFor start (asked ++ [m]) (ms.insert m).toList := by
  refine ⟨pairwise_insert m ms, fun x => ?_⟩
  have hx : Modifier.visibility? start asked = some x → x.isVisibility = true :=
    isVisibility_of_visibility? hstart
  rw [mem_insert, h.mem_iff, visibility?_concat, List.mem_append, List.mem_singleton]
  cases hm : m.isVisibility with
  | true =>
    rw [if_pos rfl, Option.some_inj]
    constructor
    · rintro (rfl | ⟨⟨hmem, hx⟩ | hlast, hor⟩)
      · exact .inr rfl
      · exact .inl ⟨.inl hmem, hx⟩
      · rw [hx hlast] at hor
        simp at hor
    · rintro (⟨hmem | rfl, hx⟩ | rfl)
      · exact .inr ⟨.inl ⟨hmem, hx⟩, .inr hx⟩
      · exact .inl rfl
      · exact .inl rfl
  | false =>
    rw [if_neg Bool.false_ne_true]
    constructor
    · rintro (rfl | ⟨⟨hmem, hx⟩ | hlast, -⟩)
      · exact .inl ⟨.inr rfl, hm⟩
      · exact .inl ⟨.inl hmem, hx⟩
      · exact .inr hlast
    · rintro (⟨hmem | rfl, hx⟩ | hlast)
      · exact .inr ⟨.inl ⟨hmem, hx⟩, .inl rfl⟩
      · exact .inl rfl
      · exact .inr ⟨.inr hlast, .inl rfl⟩

/-- Modifiers that are put in one after the other have all been asked for. -/
lemma insertAll {ms : Modifiers} (hstart : ∀ m ∈ start, m.isVisibility = true)
    (h : AskedFor start asked ms.toList) (added : List Modifier) :
    AskedFor start (asked ++ added) (ms.insertAll added).toList := by
  induction added generalizing asked ms with
  | nil =>
    rw [List.append_nil]
    exact h
  | cons m added ih =>
    have hrest := ih (h.insert hstart m)
    rwa [List.append_assoc, List.singleton_append] at hrest

/-- Only a modifier that says who can see a declaration is ever replaced. -/
lemma mem_iff_of_not_visibility {ms : List Modifier} {x : Modifier}
    (hstart : ∀ m ∈ start, m.isVisibility = true) (h : AskedFor start asked ms)
    (hx : x.isVisibility = false) : x ∈ ms ↔ x ∈ asked := by
  rw [h.mem_iff, and_iff_left hx]
  refine or_iff_left fun hlast => ?_
  rw [isVisibility_of_visibility? hstart hlast] at hx
  cases hx

/-- Where nothing else is asked for there is only the visibility. -/
lemma eq_visibility {ms : List Modifier} (h : AskedFor start asked ms)
    (hasked : ∀ m ∈ asked, m.isVisibility = true) :
    ms = (Modifier.visibility? start asked).toList := by
  have hmem : ∀ m, m ∈ ms ↔ Modifier.visibility? start asked = some m := by
    intro m
    rw [h.mem_iff]
    refine or_iff_right fun hm => ?_
    rw [hasked m hm.1] at hm
    cases hm.2
  -- what stands in order stands there once
  have hnodup : ms.Nodup := h.ordered.imp fun hlt heq =>
    Nat.ne_of_lt hlt (congrArg Modifier.rank heq)
  cases hv : Modifier.visibility? start asked with
  | none => exact List.eq_nil_iff_forall_not_mem.2 fun m hm => by simp [hmem, hv] at hm
  | some v =>
    have hperm : ms.Perm [v] := by
      refine (List.perm_ext_iff_of_nodup hnodup (List.pairwise_singleton _ v)).2 fun m => ?_
      rw [hmem, hv, Option.some_inj, List.mem_singleton, eq_comm]
    exact List.perm_singleton.1 hperm

end AskedFor

end Modifiers

end SharpSmith
