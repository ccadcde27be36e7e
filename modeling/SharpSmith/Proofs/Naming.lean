import Mathlib.Tactic.Common
import SharpSmith.Identifier
import SharpSmith.Proofs.Characters

/-!
# Identifiers and namespaces

What the checks of names accept: words, which may be escaped and are not reserved otherwise, and for
namespaces such identifiers with dots between.
-/

namespace SharpSmith

/-- A word: a character that starts one and characters that go on with it. -/
inductive IsWord : List Char → Prop where
  | mk {c w} :
    Text.startsWord c = true →
    (∀ x ∈ w, Text.continuesWord x = true) →
    IsWord (c :: w)

/-- A text is an identifier: a word, which is not reserved unless it is escaped. -/
inductive IsIdentifier : List Char → Prop where
  | bare {w} :
    IsWord w →
    Identifier.isKeyword (String.ofList w) = false →
    IsIdentifier w
  | escaped {w} :
    IsWord w →
    IsIdentifier ('@' :: w)

/-- A text is a namespace: identifiers with dots between. -/
inductive IsNamespace : List Char → Prop where
  | last {w} :
    IsIdentifier w →
    IsNamespace w
  | dot {w cs} :
    IsIdentifier w →
    IsNamespace cs →
    IsNamespace (w ++ '.' :: cs)

/-- What passes the tests for the characters of words is a word. -/
lemma isWord_of_tests {w : List Char} (hstart : w.head?.any Text.startsWord = true)
    (hrest : w.tail.all Text.continuesWord = true) : IsWord w := by
  cases w with
  | nil => cases hstart
  | cons c w => exact .mk (by simpa using hstart) (by simpa using hrest)

/-- All characters of a word go on with one. -/
lemma IsWord.continuesWord {w} (h : IsWord w) : ∀ c ∈ w, Text.continuesWord c = true := by
  cases h with
  | mk hc hw => exact List.forall_mem_cons.2 ⟨Text.continuesWord_of_startsWord hc, hw⟩

/-- No word is escaped. -/
lemma IsWord.head?_ne {w} (h : IsWord w) : w.head? ≠ some '@' := by
  cases h with
  | mk hc _ =>
    rintro ⟨⟩
    exact absurd hc (by decide)

/-- The start of a word is a word. -/
lemma IsWord.take {w n} (h : IsWord w) (hn : n ≠ 0) : IsWord (w.take n) := by
  cases h with
  | mk hc hw =>
    obtain ⟨n, rfl⟩ := Nat.exists_eq_succ_of_ne_zero hn
    rw [List.take_succ_cons]
    exact .mk hc fun x hx => hw x (List.mem_of_mem_take hx)

/-- An escaped word is not reserved. -/
lemma isKeyword_escaped {w} : Identifier.isKeyword (String.ofList ('@' :: w)) = false := by
  have table : ∀ k ∈ Identifier.keywords, k.toList.head? ≠ some '@' := by decide
  rw [Identifier.isKeyword, List.contains_eq_mem, decide_eq_false_iff_not]
  intro hmem
  exact table _ hmem (by simp)

/-- No identifier is reserved. -/
lemma IsIdentifier.isKeyword {cs} (h : IsIdentifier cs) :
    Identifier.isKeyword (String.ofList cs) = false := by
  cases h with
  | bare _ hk => exact hk
  | escaped => exact isKeyword_escaped

/-- No identifier is empty. -/
lemma IsIdentifier.ne_nil {cs} (h : IsIdentifier cs) : cs ≠ [] := by
  cases h with
  | bare hw =>
    cases hw
    exact nofun
  | escaped => exact nofun

/-- What holds of `@` and of the characters of words holds of those of an identifier. -/
lemma IsIdentifier.forall_mem {P : Char → Prop} {cs} (h : IsIdentifier cs) (hat : P '@')
    (hword : ∀ c, Text.continuesWord c = true → P c) : ∀ c ∈ cs, P c := by
  cases h with
  | bare hw => exact fun c hc => hword c (hw.continuesWord c hc)
  | escaped hw => exact List.forall_mem_cons.2 ⟨hat, fun c hc => hword c (hw.continuesWord c hc)⟩

/-- No identifier holds white space. -/
lemma IsIdentifier.isBlank {cs} (h : IsIdentifier cs) : ∀ c ∈ cs, Text.isBlank c = false :=
  h.forall_mem (by decide) fun _ => Text.isBlank_of_continuesWord

/-- No identifier holds a dot. -/
lemma IsIdentifier.ne_dot {cs} (h : IsIdentifier cs) : ∀ c ∈ cs, c ≠ '.' := by
  apply h.forall_mem (P := fun c => c ≠ '.') (by decide)
  rintro c hc rfl
  exact absurd hc (by decide)

/-- A text without a mark of its own passes just if it is a word, and not reserved unless it is
escaped. -/
lemma bareFault?_eq_none_iff {escaped w} :
    Identifier.bareFault? escaped w = none ↔
      IsWord w ∧ (escaped = false → Identifier.isKeyword (String.ofList w) = false) := by
  cases w with
  | nil => exact iff_of_false (fun h => nomatch h) fun h => nomatch h.1
  | cons c w =>
    rw [Identifier.bareFault?]
    constructor
    · intro h
      split at h
      case isTrue => cases h
      case isFalse hs =>
        split at h
        case isTrue => cases h
        case isFalse hw =>
          split at h
          case isTrue => cases h
          case isFalse hk =>
            refine ⟨.mk (by simpa using hs) (by simpa using hw), ?_⟩
            rintro rfl
            simpa using hk
    · rintro ⟨hword, hk⟩
      cases hword with
      | mk hc hw =>
        rw [if_neg (by simpa using hc), if_neg (by simpa using hw), if_neg]
        cases escaped with
        | true => simp
        | false => simpa using hk rfl

/-- A text passes for an identifier just if it is one. -/
lemma identifierFault?_eq_none_iff {cs} :
    Identifier.identifierFault? cs = none ↔ IsIdentifier cs := by
  constructor
  · intro h
    unfold Identifier.identifierFault? at h
    split at h
    case h_1 w => exact .escaped (bareFault?_eq_none_iff.1 h).1
    case h_2 =>
      obtain ⟨hw, hk⟩ := bareFault?_eq_none_iff.1 h
      exact .bare hw (hk rfl)
  · intro h
    cases h with
    | escaped hw => exact bareFault?_eq_none_iff.2 ⟨hw, nofun⟩
    | bare hw hk =>
      unfold Identifier.identifierFault?
      split
      case h_1 => exact absurd rfl hw.head?_ne
      case h_2 => exact bareFault?_eq_none_iff.2 ⟨hw, fun _ => hk⟩

/-- Every text has a field. -/
lemma fields_ne_nil {separator : Char} {cs} : Text.fields separator cs ≠ [] := by
  cases cs with
  | nil => exact nofun
  | cons c cs =>
    unfold Text.fields
    split
    case isTrue => exact nofun
    case isFalse => split <;> exact nofun

/-- A text is its first field, or starts with it and a separator. -/
lemma eq_of_fields {separator : Char} {cs f fs} (h : Text.fields separator cs = f :: fs) :
    fs = [] ∧ cs = f ∨ ∃ ds, cs = f ++ separator :: ds ∧ Text.fields separator ds = fs := by
  induction cs generalizing f with
  | nil =>
    cases h
    exact .inl ⟨rfl, rfl⟩
  | cons c cs ih =>
    rw [Text.fields] at h
    split at h
    case isTrue hc =>
      cases h
      exact .inr ⟨cs, by rw [hc]; rfl, rfl⟩
    case isFalse =>
      cases e : Text.fields separator cs with
      | nil => exact absurd e fields_ne_nil
      | cons g gs =>
        rw [e] at h
        cases h
        rcases ih e with ⟨rfl, rfl⟩ | ⟨ds, rfl, hds⟩
        · exact .inl ⟨rfl, rfl⟩
        · exact .inr ⟨ds, rfl, hds⟩

/-- A text without a separator is its only field. -/
lemma fields_of_forall_ne {separator : Char} {w} (h : ∀ c ∈ w, c ≠ separator) :
    Text.fields separator w = [w] := by
  induction w with
  | nil => rfl
  | cons c w ih =>
    rw [List.forall_mem_cons] at h
    rw [Text.fields, if_neg h.1, ih h.2]

/-- What stands before the first separator is the first field. -/
lemma fields_append {separator : Char} {w cs} (h : ∀ c ∈ w, c ≠ separator) :
    Text.fields separator (w ++ separator :: cs) = w :: Text.fields separator cs := by
  induction w with
  | nil => rw [List.nil_append, Text.fields, if_pos rfl]
  | cons c w ih =>
    rw [List.forall_mem_cons] at h
    rw [List.cons_append, Text.fields, if_neg h.1, ih h.2]

/-- A text whose fields are identifiers is a namespace. -/
lemma isNamespace_of_fields {fs cs} (h : Text.fields '.' cs = fs)
    (hf : ∀ f ∈ fs, IsIdentifier f) : IsNamespace cs := by
  induction fs generalizing cs with
  | nil => exact absurd h fields_ne_nil
  | cons f fs ih =>
    have hfirst := hf f (.head _)
    rcases eq_of_fields h with ⟨-, rfl⟩ | ⟨ds, rfl, hds⟩
    · exact .last hfirst
    · exact .dot hfirst (ih hds fun g hg => hf g (.tail _ hg))

/-- The fields of a namespace are identifiers. -/
lemma IsNamespace.fields {cs} (h : IsNamespace cs) : ∀ f ∈ Text.fields '.' cs, IsIdentifier f := by
  induction h with
  | last hw =>
    rw [fields_of_forall_ne hw.ne_dot]
    exact List.forall_mem_singleton.2 hw
  | dot hw _ ih =>
    rw [fields_append hw.ne_dot]
    exact List.forall_mem_cons.2 ⟨hw, ih⟩

/-- A text passes for a namespace just if it is empty or one. -/
lemma namespaceFault?_eq_none_iff {space : String} :
    Identifier.namespaceFault? space = none ↔ space = "" ∨ IsNamespace space.toList := by
  have hfields : (Text.fields '.' space.toList).findSome? Identifier.identifierFault? = none ↔
      IsNamespace space.toList := by
    simp only [List.findSome?_eq_none_iff, identifierFault?_eq_none_iff]
    exact ⟨isNamespace_of_fields rfl, IsNamespace.fields⟩
  rw [Identifier.namespaceFault?, ← hfields]
  split
  case isTrue h => exact iff_of_true rfl (.inl (by simpa using h))
  case isFalse h => exact (or_iff_right (by simpa using h)).symm

/-- A namespace that is valid and not empty is one. -/
lemma isNamespace_of_fault? {space} (h : Identifier.namespaceFault? space = none)
    (hne : space ≠ "") : IsNamespace space.toList :=
  (namespaceFault?_eq_none_iff.1 h).resolve_left hne

end SharpSmith
