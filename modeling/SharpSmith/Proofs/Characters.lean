import Mathlib.Data.List.TakeWhile
import Mathlib.Tactic.Common
import SharpSmith.Text.Basic

/-!
# Character classes

How the classes of characters lie to each other: white space, letters and numerals are disjoint
where reading tokens relies on it, and ASCII digits are numerals. Two tables are compared by their
ranges, so that nothing is said about single code points.
-/

namespace SharpSmith.Text

/-- A character of a class lies in one of the ranges of its table. -/
lemma exists_range_of_inRanges {table c} (h : inRanges table c = true) :
    ∃ r ∈ table, r.1 ≤ c.toNat ∧ c.toNat ≤ r.2 := by
  unfold inRanges at h
  split at h
  case h_1 r hr =>
    have hle := List.find?_some hr
    exact ⟨r, List.mem_of_find?_eq_some hr, of_decide_eq_true h, of_decide_eq_true hle⟩
  case h_2 => cases h

/-- Two classes whose tables have no range in common are disjoint. -/
lemma inRanges_disjoint {table other c}
    (apart : ∀ r ∈ table, ∀ s ∈ other, r.2 < s.1 ∨ s.2 < r.1)
    (h : inRanges table c = true) : inRanges other c = false := by
  cases e : inRanges other c with
  | false => rfl
  | true =>
    obtain ⟨r, hr, hr1, hr2⟩ := exists_range_of_inRanges h
    obtain ⟨s, hs, hs1, hs2⟩ := exists_range_of_inRanges e
    have := apart r hr s hs
    omega

/-- White space is no letter. -/
lemma isAlphabetic_of_isBlank {c} (h : isBlank c = true) : isAlphabetic c = false :=
  inRanges_disjoint (by decide +kernel) h

/-- White space is no numeral. -/
lemma isNumeric_of_isBlank {c} (h : isBlank c = true) : isNumeric c = false :=
  inRanges_disjoint (by decide +kernel) h

/-- White space does not go on with a word. -/
lemma continuesWord_of_isBlank {c} (h : isBlank c = true) : continuesWord c = false := by
  have hu : c ≠ '_' := by
    rintro rfl
    exact absurd h (by decide)
  simp [continuesWord, isAlphanumeric, isAlphabetic_of_isBlank h, isNumeric_of_isBlank h, hu]

/-- A character of a word is no white space. -/
lemma isBlank_of_continuesWord {c} (h : continuesWord c = true) : isBlank c = false := by
  cases e : isBlank c with
  | false => rfl
  | true => rw [continuesWord_of_isBlank e] at h; cases h

/-- What a word starts with may also stand inside of one. -/
lemma continuesWord_of_startsWord {c} (h : startsWord c = true) : continuesWord c = true := by
  simp only [startsWord, Bool.or_eq_true] at h
  simp only [continuesWord, isAlphanumeric, Bool.or_eq_true]
  exact h.imp Or.inl id

/-- What a word starts with is no white space. -/
lemma isBlank_of_startsWord {c} (h : startsWord c = true) : isBlank c = false :=
  isBlank_of_continuesWord (continuesWord_of_startsWord h)

/-- A character is the ASCII digit that its code point says. -/
lemma mem_digits_of_isDigit {c : Char} (h : c.isDigit = true) :
    c ∈ ['0', '1', '2', '3', '4', '5', '6', '7', '8', '9'] := by
  have hc : c = Char.ofNat c.toNat := (Char.ofNat_toNat c).symm
  simp only [Char.isDigit, Bool.and_eq_true, decide_eq_true_eq] at h
  have h1 : 48 ≤ c.toNat := h.1
  have h2 : c.toNat ≤ 57 := h.2
  have h3 : c.toNat = 48 ∨ c.toNat = 49 ∨ c.toNat = 50 ∨ c.toNat = 51 ∨ c.toNat = 52 ∨
      c.toNat = 53 ∨ c.toNat = 54 ∨ c.toNat = 55 ∨ c.toNat = 56 ∨ c.toNat = 57 := by omega
  rcases h3 with e | e | e | e | e | e | e | e | e | e <;> (rw [e] at hc; rw [hc]; decide)

/-- An ASCII digit is a character of a word. -/
lemma continuesWord_of_isDigit {c : Char} (h : c.isDigit = true) : continuesWord c = true := by
  have digits : ['0', '1', '2', '3', '4', '5', '6', '7', '8', '9'].all continuesWord = true := by
    decide +kernel
  exact List.all_eq_true.1 digits c (mem_digits_of_isDigit h)

/-- No word starts with an ASCII digit. -/
lemma startsWord_of_isDigit {c : Char} (h : c.isDigit = true) : startsWord c = false := by
  have digits : ['0', '1', '2', '3', '4', '5', '6', '7', '8', '9'].any startsWord = false := by
    decide +kernel
  simpa using List.any_eq_false.1 digits c (mem_digits_of_isDigit h)

end SharpSmith.Text
