import Mathlib.Tactic.Common
import SharpSmith.Fragment.Role

/-!
# Type arguments

Which tokens make up a list of type arguments: `<` just after an identifier, tokens that may stand
in types, and the `>` that closes it. The brackets that are told apart from comparisons are those of
these lists, whether or not a list was meant.
-/

namespace SharpSmith.Fragment

/-- The first `n` tokens close `d + 1` lists of type arguments, and all of them may stand there. -/
inductive Closes : (d : Nat) → List Token → (n : Nat) → Prop where
  | last {t ts} :
    t.is ">" = true →
    Closes 0 (t :: ts) 1
  | inner {d t ts n} :
    t.is ">" = true →
    Closes d ts n →
    Closes (d + 1) (t :: ts) (n + 1)
  | opened {d t ts n} :
    t.is "<" = true →
    Closes (d + 1) ts n →
    Closes d (t :: ts) (n + 1)
  | passed {d t ts n} :
    inTypeArguments t = true →
    (t.is "<" || t.is ">") = false →
    Closes d ts n →
    Closes d (t :: ts) (n + 1)

/-- A list of type arguments starts at a `<` just after an identifier, and takes the `n` tokens
after it that close it. -/
structure Starts (previous : Option Token) (t : Token) (ts : List Token) (n : Nat) : Prop where
  named : previous.any (·.kind == .identifier) = true
  opens : t.is "<" = true
  closes : Closes 0 ts n

/-- The token at place `k` stands in a list of type arguments. -/
inductive InArguments : (previous : Option Token) → List Token → (k : Nat) → Prop where
  | here {previous t ts n k} :
    Starts previous t ts n →
    k ≤ n →
    InArguments previous (t :: ts) k
  | later {previous t ts k} :
    InArguments (some t) ts k →
    InArguments previous (t :: ts) (k + 1)

/-- A `>` is no `<`. -/
lemma is_less_eq_false {t : Token} (h : t.is ">" = true) : t.is "<" = false := by
  simp only [Token.is, Bool.and_eq_true, beq_iff_eq] at h
  simp [Token.is, h.2]

/-- Only some signs may stand in type arguments. -/
lemma inTypeArguments_is {t : Token} {text} (h : t.is text = true) :
    inTypeArguments t = ["<", ">", ",", ".", "?", "[", "]"].contains text := by
  simp only [Token.is, Bool.and_eq_true, beq_iff_eq] at h
  rw [inTypeArguments, h.1, h.2]

/-- A sign that is none of those of type arguments may not stand among them. -/
lemma inTypeArguments_of_is {t : Token} {text} (h : t.is text = true)
    (ht : text ∉ ["<", ">", ",", ".", "?", "[", "]"]) : inTypeArguments t = false := by
  rw [inTypeArguments_is h]
  simpa using ht

/-- Angle brackets may stand among type arguments. -/
lemma inTypeArguments_of_angle {t : Token} (h : (t.is "<" || t.is ">") = true) :
    inTypeArguments t = true := by
  rw [Bool.or_eq_true] at h
  rcases h with h | h
  · exact inTypeArguments_is h
  · exact inTypeArguments_is h

/-- The end that is found is that of the tokens which close the open lists. -/
lemma typeArgumentsEnd?_eq_some_iff {d ts n} :
    typeArgumentsEnd? d ts = some n ↔ Closes d ts n := by
  constructor
  · intro h
    induction ts generalizing d n with
    | nil => cases h
    | cons t ts ih =>
      unfold typeArgumentsEnd? at h
      split at h
      case isTrue => cases h
      case isFalse hin =>
        rw [Bool.not_eq_true, Bool.not_eq_false'] at hin
        split at h
        case isTrue hless =>
          obtain ⟨n, hn, rfl⟩ := Option.map_eq_some_iff.1 h
          exact .opened hless (ih hn)
        case isFalse hless =>
          split at h
          case isTrue hgreater =>
            cases d with
            | zero =>
              cases h
              exact .last hgreater
            | succ d =>
              obtain ⟨n, hn, rfl⟩ := Option.map_eq_some_iff.1 h
              exact .inner hgreater (ih hn)
          case isFalse hgreater =>
            obtain ⟨n, hn, rfl⟩ := Option.map_eq_some_iff.1 h
            exact .passed hin (by simp [hless, hgreater]) (ih hn)
  · intro h
    induction h with
    | last ht => simp [typeArgumentsEnd?, inTypeArguments_of_angle, ht, is_less_eq_false ht]
    | inner ht _ ih =>
      simp [typeArgumentsEnd?, inTypeArguments_of_angle, ht, is_less_eq_false ht, ih]
    | opened ht _ ih => simp [typeArgumentsEnd?, inTypeArguments_of_angle, ht, ih]
    | passed hmay ht _ ih =>
      rw [Bool.or_eq_false_iff] at ht
      simp [typeArgumentsEnd?, hmay, ht, ih]

/-- Closing a list takes a token. -/
lemma Closes.pos {d ts n} (h : Closes d ts n) : 0 < n := by
  cases h <;> exact Nat.succ_pos _

/-- The tokens that close a list are among those that there are. -/
lemma Closes.le_length {d ts n} (h : Closes d ts n) : n ≤ ts.length := by
  induction h with
  | last => exact Nat.succ_le_succ (Nat.zero_le _)
  | inner _ _ ih | opened _ _ ih | passed _ _ _ ih => exact Nat.succ_le_succ ih

/-- A list that stands in another ends before it. -/
lemma Closes.lt {d d' ts m n} (hm : Closes d ts m) (hn : Closes d' ts n) (hd : d' < d) :
    n < m := by
  induction hm generalizing d' n with
  | last => cases hd
  | inner ht h ih =>
    cases hn with
    | last => exact Nat.succ_lt_succ h.pos
    | inner _ hn => exact Nat.succ_lt_succ (ih hn (Nat.lt_of_succ_lt_succ hd))
    | opened ht' => simp [is_less_eq_false ht] at ht'
    | passed _ ht' => simp [ht] at ht'
  | opened ht _ ih =>
    cases hn with
    | last ht' => simp [is_less_eq_false ht'] at ht
    | inner ht' => simp [is_less_eq_false ht'] at ht
    | opened _ hn => exact Nat.succ_lt_succ (ih hn (Nat.succ_lt_succ hd))
    | passed _ ht' => simp [ht] at ht'
  | passed _ ht _ ih =>
    cases hn with
    | last ht' => simp [ht'] at ht
    | inner ht' => simp [ht'] at ht
    | opened ht' => simp [ht'] at ht
    | passed _ _ hn => exact Nat.succ_lt_succ (ih hn hd)

/-- After its first token a list goes on, unless that closed it. -/
lemma Closes.tail {d t ts n} (h : Closes d (t :: ts) (n + 1)) :
    n = 0 ∨ ∃ d', Closes d' ts n := by
  cases h with
  | last => exact .inl rfl
  | inner _ h => exact .inr ⟨_, h⟩
  | opened _ h => exact .inr ⟨_, h⟩
  | passed _ _ h => exact .inr ⟨_, h⟩

/-- Only what may stand in type arguments stands before they are closed. -/
lemma Closes.inTypeArguments {d ts n t} {k : Nat} (h : Closes d ts n) (hk : k < n)
    (ht : ts[k]? = some t) : inTypeArguments t = true := by
  induction h generalizing k with
  | last hgreater =>
    obtain rfl : k = 0 := by omega
    cases ht
    exact inTypeArguments_of_angle (by simp [hgreater])
  | inner hgreater _ ih =>
    cases k with
    | zero =>
      cases ht
      exact inTypeArguments_of_angle (by simp [hgreater])
    | succ k => exact ih (Nat.lt_of_succ_lt_succ hk) ht
  | opened hless _ ih =>
    cases k with
    | zero =>
      cases ht
      exact inTypeArguments_of_angle (by simp [hless])
    | succ k => exact ih (Nat.lt_of_succ_lt_succ hk) ht
  | passed hmay _ _ ih =>
    cases k with
    | zero =>
      cases ht
      exact hmay
    | succ k => exact ih (Nat.lt_of_succ_lt_succ hk) ht

/-- What stands in a list of type arguments is at most as far behind its start as the list is
long. -/
lemma InArguments.exists_starts {previous ts k} (h : InArguments previous ts k) :
    ∃ before t rest n, ts = before ++ t :: rest ∧ Starts (before.getLast?.or previous) t rest n ∧
      before.length ≤ k ∧ k ≤ before.length + n := by
  induction h with
  | @here previous t ts n k hstart hk =>
    exact ⟨[], t, ts, n, rfl, hstart, Nat.zero_le k, by rwa [List.length_nil, Nat.zero_add]⟩
  | @later previous t ts k _ ih =>
    obtain ⟨before, u, rest, n, rfl, hstart, hle, hk⟩ := ih
    refine ⟨t :: before, u, rest, n, rfl, ?_, Nat.succ_le_succ hle, ?_⟩
    · rwa [List.getLast?_cons, Option.some_or, ← Option.or_some]
    · rw [List.length_cons]
      omega

/-- From its `<` to its end, the tokens of a list stand in it. -/
lemma Starts.inArguments {previous before t rest n} {k : Nat}
    (h : Starts (before.getLast?.or previous) t rest n) (hk : k ≤ n) :
    InArguments previous (before ++ t :: rest) (before.length + k) := by
  induction before generalizing previous with
  | nil =>
    rw [List.length_nil, Nat.zero_add]
    exact .here h hk
  | cons u before ih =>
    rw [List.getLast?_cons, Option.some_or, ← Option.or_some] at h
    rw [List.length_cons, Nat.add_right_comm]
    exact .later (ih h)

/-- What stands in a list of type arguments may stand there. -/
lemma InArguments.inTypeArguments {previous ts t} {k : Nat} (h : InArguments previous ts k)
    (ht : ts[k]? = some t) : inTypeArguments t = true := by
  induction h with
  | @here _ _ _ _ k hstart hk =>
    cases k with
    | zero =>
      cases ht
      exact inTypeArguments_of_angle (by simp [hstart.opens])
    | succ k => exact hstart.closes.inTypeArguments hk ht
  | later _ ih => exact ih ht

/-- A list of type arguments ends before a token that cannot stand in one. -/
lemma typeArgumentsEnd?_cut {x : Token} {xs ys depth} (hx : inTypeArguments x = false) :
    typeArgumentsEnd? depth (xs ++ x :: ys) = typeArgumentsEnd? depth xs := by
  induction xs generalizing depth with
  | nil => simp [typeArgumentsEnd?, hx]
  | cons t xs ih => simp only [List.cons_append, typeArgumentsEnd?, ih]

/-- A list that starts in another one ends with it or before. -/
lemma Starts.le {previous t ts d m n} (h : Starts previous t ts n)
    (hm : Closes d (t :: ts) (m + 1)) : n ≤ m := by
  have hless := h.opens
  cases hm with
  | last ht => simp [is_less_eq_false ht] at hless
  | inner ht => simp [is_less_eq_false ht] at hless
  | opened _ hm => exact Nat.le_of_lt (hm.lt h.closes (Nat.succ_pos _))
  | passed _ ht => simp [hless] at ht

/-- A list is found at a token just if one starts there. -/
lemma start_eq_some_iff {previous : Option Token} {t : Token} {ts n} :
    (if t.is "<" && previous.any (·.kind == .identifier) then typeArgumentsEnd? 0 ts else none) =
        some n ↔ Starts previous t ts n := by
  split
  case isTrue h =>
    obtain ⟨hopens, hnamed⟩ := Bool.and_eq_true_iff.1 h
    rw [typeArgumentsEnd?_eq_some_iff]
    exact ⟨fun hn => ⟨hnamed, hopens, hn⟩, Starts.closes⟩
  case isFalse h =>
    refine iff_of_false nofun fun hn => h ?_
    rw [hn.opens, hn.named]
    rfl

/-- Brackets of type arguments are told of every token. -/
lemma length_genericBrackets {previous inside ts} :
    (genericBrackets previous inside ts).length = ts.length := by
  induction ts generalizing previous inside with
  | nil => rfl
  | cons t ts ih =>
    cases inside with
    | succ inside => rw [genericBrackets, List.length_cons, List.length_cons, ih]
    | zero =>
      simp only [genericBrackets]
      split <;> rw [List.length_cons, List.length_cons, ih]

/-- The brackets of type arguments are the signs `<` and `>` that stand in their lists. -/
lemma genericBrackets_iff {previous inside ts k}
    (hinside : inside = 0 ∨ ∃ d, Closes d ts inside) :
    (genericBrackets previous inside ts)[k]? = some true ↔
      (∃ t, ts[k]? = some t ∧ (t.is "<" || t.is ">") = true) ∧
        (k < inside ∨ InArguments previous ts k) := by
  induction ts generalizing previous inside k with
  | nil => simp [genericBrackets]
  | cons t ts ih =>
    cases inside with
    | succ inside =>
      obtain ⟨d, hd⟩ := hinside.resolve_left (Nat.succ_ne_zero _)
      rw [genericBrackets]
      cases k with
      | zero => simp
      | succ k =>
        rw [List.getElem?_cons_succ, List.getElem?_cons_succ, ih hd.tail, Nat.succ_lt_succ_iff]
        refine and_congr_right fun _ => ⟨Or.imp_right .later, Or.rec .inl fun h => ?_⟩
        cases h with
        | later h => exact .inr h
        | here h hk => exact .inl (Nat.le_trans hk (h.le hd))
    | zero =>
      simp only [genericBrackets, Nat.not_lt_zero, false_or]
      split
      case h_1 n hn =>
        have hstart := start_eq_some_iff.1 hn
        cases k with
        | zero => simp [hstart.opens, InArguments.here hstart n.zero_le]
        | succ k =>
          rw [List.getElem?_cons_succ, List.getElem?_cons_succ, ih (.inr ⟨0, hstart.closes⟩)]
          refine and_congr_right fun _ => ⟨Or.rec (.here hstart) .later, fun h => ?_⟩
          cases h with
          | later h => exact .inr h
          | here h hk =>
            cases hn.symm.trans (start_eq_some_iff.2 h)
            exact .inl hk
      case h_2 hnone =>
        have hnot : ∀ {n}, ¬Starts previous t ts n := fun h => by
          cases hnone.symm.trans (start_eq_some_iff.2 h)
        cases k with
        | zero =>
          refine iff_of_false nofun fun ⟨_, h⟩ => ?_
          cases h with
          | here h => exact hnot h
        | succ k =>
          rw [List.getElem?_cons_succ, List.getElem?_cons_succ, ih (.inl rfl)]
          simp only [Nat.not_lt_zero, false_or]
          refine and_congr_right fun _ => ⟨.later, fun h => ?_⟩
          cases h with
          | later h => exact h
          | here h => exact absurd h hnot

/-- Where type arguments stand, the marks are those of the signs `<` and `>`. -/
lemma genericBrackets_of_inArguments {ts t} {k : Nat} (h : InArguments none ts k)
    (ht : ts[k]? = some t) :
    (genericBrackets none 0 ts)[k]? = some (t.is "<" || t.is ">") := by
  have hk : k < (genericBrackets none 0 ts).length := by
    rw [length_genericBrackets]
    exact (List.getElem?_eq_some_iff.1 ht).1
  have hmark := List.getElem?_eq_getElem hk
  have hiff : (genericBrackets none 0 ts)[k]? = some true ↔ _ := genericBrackets_iff (.inl rfl)
  rw [hmark, Option.some_inj] at hiff
  rw [hmark, Option.some_inj, Bool.eq_iff_iff, hiff]
  constructor
  · rintro ⟨⟨u, hu, hangle⟩, -⟩
    cases ht.symm.trans hu
    exact hangle
  · exact fun hangle => ⟨⟨t, ht, hangle⟩, .inr h⟩

/-- Brackets of type arguments are the signs `<` and `>`. -/
lemma is_angle_of_genericBrackets {x} {ts : List Token}
    (h : x ∈ ts.zip (genericBrackets none 0 ts)) (hx : x.2 = true) :
    (x.1.is "<" || x.1.is ">") = true := by
  obtain ⟨k, hk⟩ := List.mem_iff_getElem?.1 h
  obtain ⟨ht, hg⟩ := List.getElem?_zip_eq_some.1 hk
  rw [hx] at hg
  obtain ⟨⟨t, ht', hangle⟩, -⟩ := (genericBrackets_iff (.inl rfl)).1 hg
  cases ht.symm.trans ht'
  exact hangle

/-- A `>` or `>=` is a bracket just if it stands in a list of type arguments, where `>=` never
does. -/
lemma genericBrackets_greater {ts t} {k : Nat} {generic : Bool} (ht : ts[k]? = some t)
    (h : t.is ">" = true ∨ t.is ">=" = true)
    (hg : (genericBrackets none 0 ts)[k]? = some generic) :
    generic = true ↔ InArguments none ts k := by
  have hiff : (genericBrackets none 0 ts)[k]? = some true ↔ _ := genericBrackets_iff (.inl rfl)
  rw [hg, Option.some_inj] at hiff
  rw [hiff]
  constructor
  · rintro ⟨-, hk | hin⟩
    · exact absurd hk (Nat.not_lt_zero _)
    · exact hin
  · intro hin
    have hmay := hin.inTypeArguments ht
    refine ⟨⟨t, ht, ?_⟩, .inr hin⟩
    rcases h with h | h
    · rw [h, Bool.or_true]
    · rw [inTypeArguments_of_is h (by decide)] at hmay
      cases hmay

end SharpSmith.Fragment
