import SharpSmith.Fragment.Lexeme
import SharpSmith.Proofs.Characters

/-!
# Where literals end

A string, a character or a number is read up to its end. What is read of it lies inside the text,
and cutting the text off there, or putting something else there that does not go on with it, leaves
what is read as it was.
-/

namespace SharpSmith

namespace Text

/-- The first occurrence of a pattern lies inside the text, and stays the first whatever comes
after it. -/
lemma indexOf?_take {pattern cs k} (h : indexOf? pattern cs = some k) :
    k + pattern.length ≤ cs.length ∧
      ∀ r, indexOf? pattern (cs.take (k + pattern.length) ++ r) = some k := by
  induction cs generalizing k with
  | nil =>
    unfold indexOf? at h
    split at h
    case isTrue he =>
      cases h
      rw [List.isEmpty_iff.1 he]
      refine ⟨by simp, fun r => ?_⟩
      cases r <;> simp [indexOf?]
    case isFalse => cases h
  | cons c cs ih =>
    unfold indexOf? at h
    split at h
    case isTrue hp =>
      cases h
      obtain ⟨t, ht⟩ := List.isPrefixOf_iff_prefix.1 hp
      refine ⟨by rw [← ht]; simp, fun r => ?_⟩
      rw [← ht, Nat.zero_add, List.take_left]
      cases hr : pattern ++ r with
      | nil => simp_all [indexOf?]
      | cons x xs =>
        rw [indexOf?, ← hr, if_pos (List.isPrefixOf_iff_prefix.2 (List.prefix_append _ _))]
    case isFalse hp =>
      obtain ⟨j, hj, rfl⟩ := Option.map_eq_some_iff.1 h
      obtain ⟨hle, hr⟩ := ih hj
      refine ⟨by simp only [List.length_cons]; omega, fun r => ?_⟩
      rw [show j + 1 + pattern.length = (j + pattern.length) + 1 by omega, List.take_succ_cons,
        List.cons_append, indexOf?, if_neg, hr]
      · rfl
      · intro hq
        refine hp (List.isPrefixOf_iff_prefix.2 ?_)
        -- the pattern is no longer than the part that is kept
        have hpre := List.isPrefixOf_iff_prefix.1 hq
        rw [← List.cons_append] at hpre
        have hlen : pattern.length ≤ (c :: cs.take (j + pattern.length)).length := by
          simp only [List.length_cons, List.length_take]
          omega
        have h1 := List.prefix_of_prefix_length_le hpre (List.prefix_append _ _) hlen
        exact h1.trans ((List.prefix_cons_inj c).2 (List.take_prefix _ _))

/-- What stands before the first character outside of a class is read as far as that. -/
lemma takeWhile_append_stop {p : Char → Bool} {w r : List Char} (hw : ∀ a ∈ w, p a = true)
    (hr : ∀ x ∈ r.head?, p x = false) : (w ++ r).takeWhile p = w := by
  rw [List.takeWhile_append_of_pos hw]
  cases r with
  | nil => simp
  | cons x r => simp [hr x rfl]

/-- A text is its start in a class, and a rest that starts outside of it. -/
lemma exists_takeWhile_split (p : Char → Bool) (cs : List Char) :
    ∃ w r, cs = w ++ r ∧ (∀ a ∈ w, p a = true) ∧ (∀ x ∈ r.head?, p x = false) := by
  refine ⟨cs.takeWhile p, cs.dropWhile p, (List.takeWhile_append_dropWhile).symm, ?_, ?_⟩
  · exact fun a ha => List.mem_takeWhile_imp ha
  · intro x hx
    have := List.head?_dropWhile_not p cs
    rw [Option.mem_def.1 hx] at this
    exact this

end Text

namespace Fragment

/-- A string goes on after a character that is no backslash. -/
lemma stringBody_cons {c cs} (hs : c ≠ '\\') :
    stringBody (c :: cs) =
      if c = '"' then (1, true)
      else if c = '\n' then (1, false)
      else ((stringBody cs).1 + 1, (stringBody cs).2) := by
  rw [stringBody]
  · intro e; exact absurd e hs
  · intro _ _ e; exact absurd e hs

/-- A verbatim string goes on after a character that is no quote. -/
lemma verbatimBody_cons {c cs} (hq : c ≠ '"') :
    verbatimBody (c :: cs) = ((verbatimBody cs).1 + 1, (verbatimBody cs).2) := by
  rw [verbatimBody, if_neg hq]
  intro _ e
  exact absurd e hq

/-- A character literal goes on after a character that is no backslash. -/
lemma characterBody_cons {filled c cs} (hs : c ≠ '\\') :
    characterBody filled (c :: cs) =
      if c = '\'' then (1, filled)
      else if c = '\n' then (1, false)
      else ((characterBody true cs).1 + 1, (characterBody true cs).2) := by
  rw [characterBody]
  · intro e; exact absurd e hs
  · intro _ _ e; exact absurd e hs

/-- The body of a string is closed inside the text, whatever comes after it. -/
lemma stringBody_take {cs n} (h : stringBody cs = (n, true)) :
    n ≤ cs.length ∧ ∀ r, stringBody (cs.take n ++ r) = (n, true) := by
  induction cs using stringBody.induct generalizing n with
  | case1 => simp [stringBody] at h
  | case2 => simp [stringBody] at h
  | case3 d cs ih =>
    cases e : stringBody cs with
    | mk m closed =>
      rw [stringBody, e] at h
      cases h
      obtain ⟨hle, hr⟩ := ih e
      refine ⟨by simp only [List.length_cons]; omega, fun r => ?_⟩
      simp only [List.take_succ_cons, List.cons_append, stringBody, hr]
  | case4 cs h1 h2 =>
    rw [stringBody, if_pos rfl] at h
    · cases h
      exact ⟨by simp, fun r => by simp [stringBody]⟩
    · exact h1
    · exact h2
  | case5 cs h1 h2 h3 =>
    rw [stringBody, if_neg (by decide), if_pos rfl] at h
    · cases h
    · exact h1
    · exact h2
  | case6 c cs h1 h2 hq hn ih =>
    have hs : c ≠ '\\' := by
      rintro rfl
      cases cs with
      | nil => exact h1 rfl rfl
      | cons d cs => exact h2 d cs rfl rfl
    cases e : stringBody cs with
    | mk m closed =>
      rw [stringBody_cons hs, if_neg hq, if_neg hn, e] at h
      cases h
      obtain ⟨hle, hr⟩ := ih e
      refine ⟨by simp only [List.length_cons]; omega, fun r => ?_⟩
      rw [List.take_succ_cons, List.cons_append, stringBody_cons hs, if_neg hq, if_neg hn, hr]

/-- The body of a verbatim string is closed inside the text, whatever comes after it but a
quote. -/
lemma verbatimBody_take {cs n} (h : verbatimBody cs = (n, true)) :
    n ≤ cs.length ∧
      ∀ r, r.head? ≠ some '"' → verbatimBody (cs.take n ++ r) = (n, true) := by
  induction cs using verbatimBody.induct generalizing n with
  | case1 => simp [verbatimBody] at h
  | case2 cs ih =>
    cases e : verbatimBody cs with
    | mk m closed =>
      rw [verbatimBody, e] at h
      cases h
      obtain ⟨hle, hr⟩ := ih e
      refine ⟨by simp only [List.length_cons]; omega, fun r hq => ?_⟩
      simp only [List.take_succ_cons, List.cons_append, verbatimBody, hr r hq]
  | case3 cs h1 =>
    rw [verbatimBody, if_pos rfl] at h
    · cases h
      refine ⟨by simp, fun r hq => ?_⟩
      cases r with
      | nil => simp [verbatimBody]
      | cons x r =>
        have hx : x ≠ '"' := fun e => hq (by rw [e]; rfl)
        rw [List.take_succ_cons, List.take_zero, List.cons_append, List.nil_append, verbatimBody,
          if_pos rfl]
        intro y _ e
        exact hx (List.cons.inj e).1
    · exact h1
  | case4 c cs h1 hq ih =>
    cases e : verbatimBody cs with
    | mk m closed =>
      rw [verbatimBody_cons hq, e] at h
      cases h
      obtain ⟨hle, hr⟩ := ih e
      refine ⟨by simp only [List.length_cons]; omega, fun r hq' => ?_⟩
      rw [List.take_succ_cons, List.cons_append, verbatimBody_cons hq, hr r hq']

/-- A character literal is closed inside the text, whatever comes after it. -/
lemma characterBody_take {filled cs n} (h : characterBody filled cs = (n, true)) :
    n ≤ cs.length ∧ ∀ r, characterBody filled (cs.take n ++ r) = (n, true) := by
  induction filled, cs using characterBody.induct generalizing n with
  | case1 => simp [characterBody] at h
  | case2 => simp [characterBody] at h
  | case3 filled d cs ih =>
    cases e : characterBody true cs with
    | mk m closed =>
      rw [characterBody, e] at h
      cases h
      obtain ⟨hle, hr⟩ := ih e
      refine ⟨by simp only [List.length_cons]; omega, fun r => ?_⟩
      simp only [List.take_succ_cons, List.cons_append, characterBody, hr]
  | case4 filled cs h1 h2 =>
    rw [characterBody, if_pos rfl] at h
    · cases h
      exact ⟨by simp, fun r => by simp [characterBody]⟩
    · exact h1
    · exact h2
  | case5 filled cs h1 h2 h3 =>
    rw [characterBody, if_neg (by decide), if_pos rfl] at h
    · cases h
    · exact h1
    · exact h2
  | case6 filled c cs h1 h2 hq hn ih =>
    have hs : c ≠ '\\' := by
      rintro rfl
      cases cs with
      | nil => exact h1 rfl rfl
      | cons d cs => exact h2 d cs rfl rfl
    cases e : characterBody true cs with
    | mk m closed =>
      rw [characterBody_cons hs, if_neg hq, if_neg hn, e] at h
      cases h
      obtain ⟨hle, hr⟩ := ih e
      refine ⟨by simp only [List.length_cons]; omega, fun r => ?_⟩
      rw [List.take_succ_cons, List.cons_append, characterBody_cons hs, if_neg hq, if_neg hn, hr]

/-- A text that does not start with two quotes still does not when it is cut off and goes on
with something else. -/
lemma not_isPrefixOf_quotes_take {cs r : List Char} {n : Nat}
    (h : ¬['"', '"'].isPrefixOf cs = true) (hne : cs.take n ≠ [])
    (hr : cs.take n = ['"'] → r.head? ≠ some '"') :
    ¬['"', '"'].isPrefixOf (cs.take n ++ r) = true := by
  intro hp
  obtain ⟨t, ht⟩ := List.isPrefixOf_iff_prefix.1 hp
  rcases e : cs.take n with _ | ⟨a, _ | ⟨b, l⟩⟩ <;>
    simp only [e, List.cons_append, List.nil_append, List.cons.injEq] at ht
  · exact hne e
  · exact hr (by rw [e, ht.1]) (by rw [← ht.2]; rfl)
  · apply h
    rw [← List.take_append_drop n cs, e, ← ht.1, ← ht.2.1]
    simp

/-- A string that is closed is not closed before its first character. -/
lemma take_stringBody_ne_nil {cs n} (h : stringBody cs = (n, true)) : cs.take n ≠ [] := by
  rw [Ne, List.take_eq_nil_iff]
  rintro (rfl | rfl)
  · have happ := (stringBody_take h).2 []
    rw [List.take_zero] at happ
    cases happ
  · cases h

/-- Two quotes or more stand between the first one of a raw string and its other characters. -/
lemma exists_quotes {Q R : List Char} (hQ : ∀ x ∈ Q, (x == '"') = true)
    (hR : ∀ x ∈ R.head?, (x == '"') = false) (h : ['"', '"'].isPrefixOf (Q ++ R) = true) :
    ∃ Q', Q = '"' :: '"' :: Q' := by
  obtain ⟨t, ht⟩ := List.isPrefixOf_iff_prefix.1 h
  rcases Q with _ | ⟨a, _ | ⟨b, Q⟩⟩ <;>
    simp only [List.cons_append, List.nil_append, List.cons.injEq] at ht
  · exact absurd (hR '"' (by rw [← ht]; rfl)) (by decide)
  · exact absurd (hR '"' (by rw [← ht.2]; rfl)) (by decide)
  · obtain ⟨rfl, rfl, -⟩ := ht
    exact ⟨Q, rfl⟩

/-- A raw string goes up to as many quotes as opened it, whatever comes after them. -/
lemma stringLexeme_raw {Q R : List Char} {k : Nat} (hQ : ∀ x ∈ Q, (x == '"') = true)
    (hR : ∀ x ∈ R.head?, (x == '"') = false) (hp : ['"', '"'].isPrefixOf (Q ++ R) = true)
    (hk : Text.indexOf? (List.replicate (Q.length + 1) '"') R = some k) (lead : Nat)
    (r : List Char) :
    stringLexeme lead (Q ++ (R.take (k + (Q.length + 1)) ++ r)) =
      .ok ⟨.token .string, lead + (Q.length + (k + (Q.length + 1)))⟩ := by
  obtain ⟨hle, hr⟩ := Text.indexOf?_take hk
  rw [List.length_replicate] at hle hr
  have hstop : ∀ x ∈ (R.take (k + (Q.length + 1)) ++ r).head?, (x == '"') = false := by
    cases R with
    | nil => simp at hle
    | cons x R => simpa [← Nat.add_assoc] using hR
  have hquotes : ['"', '"'].isPrefixOf (Q ++ (R.take (k + (Q.length + 1)) ++ r)) = true := by
    obtain ⟨Q', rfl⟩ := exists_quotes hQ hR hp
    rfl
  rw [stringLexeme, if_pos hquotes]
  simp only [Text.takeWhile_append_stop hQ hstop, List.drop_left, hr]
  congr 2
  omega

/-- A string is closed inside the text, whatever comes after it; but a quote may not come after an
empty string. -/
lemma stringLexeme_take {lead cs shape extra} (h : stringLexeme lead cs = .ok ⟨shape, extra⟩) :
    ∃ n, n ≤ cs.length ∧ shape = .token .string ∧ extra = lead + n ∧
      (cs.take n = ['"'] → (cs.drop n).head? ≠ some '"') ∧
      ∀ lead' r, (cs.take n = ['"'] → r.head? ≠ some '"') →
        stringLexeme lead' (cs.take n ++ r) = .ok ⟨.token .string, lead' + n⟩ := by
  unfold stringLexeme at h
  split at h
  case isTrue hp =>
    simp only at h
    split at h
    case h_2 => cases h
    case h_1 k hk =>
      cases h
      -- a raw string: its opening quotes `Q` end at its first other character
      obtain ⟨Q, R, rfl, hQ, hR⟩ := Text.exists_takeWhile_split (· == '"') cs
      rw [Text.takeWhile_append_stop hQ hR, List.drop_left] at hk
      obtain ⟨hle, -⟩ := Text.indexOf?_take hk
      rw [List.length_replicate] at hle
      rw [Text.takeWhile_append_stop hQ hR]
      have htake : (Q ++ R).take (Q.length + (k + (Q.length + 1))) =
          Q ++ R.take (k + (Q.length + 1)) := List.take_length_add_append _
      refine ⟨Q.length + (k + (Q.length + 1)), by simp only [List.length_append]; omega, rfl,
        by omega, fun e => ?_, fun lead' r _ => ?_⟩
      · obtain ⟨Q', rfl⟩ := exists_quotes hQ hR hp
        rw [htake] at e
        cases e
      · rw [htake, List.append_assoc]
        exact stringLexeme_raw hQ hR hp hk lead' r
  case isFalse hp =>
    split at h
    case h_2 => cases h
    case h_1 n e =>
      obtain ⟨hle, hr⟩ := stringBody_take e
      cases h
      refine ⟨n, hle, rfl, rfl, fun htake hquote => hp ?_, fun lead' r hq => ?_⟩
      · obtain ⟨r, hr⟩ : ∃ r, cs.drop n = '"' :: r := by
          cases hdrop : cs.drop n with
          | nil => rw [hdrop] at hquote; cases hquote
          | cons x r => rw [hdrop] at hquote; cases hquote; exact ⟨r, rfl⟩
        rw [← List.take_append_drop n cs, htake, hr]
        rfl
      · have hne := take_stringBody_ne_nil e
        rw [stringLexeme, if_neg (not_isPrefixOf_quotes_take hp hne hq), hr]

/-- The number of characters that a number goes on with is at most that of the text. -/
lemma numberBody_le {hex previous cs} : numberBody hex previous cs ≤ cs.length := by
  induction cs generalizing previous with
  | nil => simp [numberBody]
  | cons c cs ih =>
    simp only [numberBody]
    split
    · exact Nat.succ_le_succ ih
    · exact Nat.zero_le _

/-- The test for one more character of a number. -/
lemma numberBody_cons {hex previous c cs} :
    numberBody hex previous (c :: cs) =
      if Text.continuesWord c ||
          ((c == '+' || c == '-') && !hex && (previous == 'e' || previous == 'E')) ||
          (c == '.' && cs.head?.any Char.isDigit)
      then numberBody hex c cs + 1 else 0 := rfl

/-- A number goes on with a digit. -/
lemma head?_take_numberBody {hex previous} {cs : List Char} (h : cs.head?.any Char.isDigit = true) :
    (cs.take (numberBody hex previous cs)).head?.any Char.isDigit = true := by
  cases cs with
  | nil => exact h
  | cons c cs =>
    have hc : c.isDigit = true := by simpa using h
    rw [numberBody_cons, if_pos (by simp [Text.continuesWord_of_isDigit hc])]
    simpa using hc

/-- A number that is cut off where it ends is read whole. -/
lemma numberBody_take {hex previous cs} :
    numberBody hex previous (cs.take (numberBody hex previous cs)) =
      numberBody hex previous cs := by
  induction cs generalizing previous with
  | nil => simp [numberBody]
  | cons c cs ih =>
    rw [numberBody_cons]
    split
    case isFalse => simp [numberBody]
    case isTrue hc =>
      rw [List.take_succ_cons, numberBody_cons, if_pos, ih]
      simp only [Bool.or_eq_true, Bool.and_eq_true] at hc ⊢
      exact hc.imp id fun hp => ⟨hp.1, head?_take_numberBody hp.2⟩

/-- A number is read as far as it goes, and goes on as its last character lets it. -/
lemma numberBody_append {hex previous w r} (hw : numberBody hex previous w = w.length) :
    numberBody hex previous (w ++ r) = w.length + numberBody hex (w.getLastD previous) r := by
  induction w generalizing previous with
  | nil => exact (Nat.zero_add _).symm
  | cons c w ih =>
    rw [numberBody_cons] at hw
    split at hw
    case isFalse => cases hw
    case isTrue hc =>
      rw [List.getLastD_cons, List.cons_append, numberBody_cons, if_pos, ih (Nat.succ.inj hw),
        List.length_cons, Nat.add_right_comm]
      simp only [Bool.or_eq_true, Bool.and_eq_true] at hc ⊢
      refine hc.imp id fun hp => ⟨hp.1, ?_⟩
      cases w with
      | nil => simp at hp
      | cons d w => exact hp.2

/-- A number that does not go on is not followed by a character of a word. -/
lemma continuesWord_of_numberBody {hex previous r} (h : numberBody hex previous r = 0) :
    ∀ x ∈ r.head?, Text.continuesWord x = false := by
  intro x hx
  cases r with
  | nil => cases hx
  | cons y r =>
    cases hx
    rw [numberBody_cons] at h
    split at h
    case isTrue => cases h
    case isFalse hn =>
      simp only [Bool.or_eq_true, not_or, Bool.not_eq_true] at hn
      exact hn.1.1

/-- What a number leaves over does not start with a character of a word. -/
lemma numberBody_stops {hex previous} {cs : List Char} :
    ∀ x ∈ (cs.drop (numberBody hex previous cs)).head?, Text.continuesWord x = false := by
  induction cs generalizing previous with
  | nil => simp
  | cons c cs ih =>
    rw [numberBody_cons]
    split
    case isTrue => exact ih
    case isFalse hn =>
      simp only [Bool.or_eq_true, not_or, Bool.not_eq_true] at hn
      intro x hx
      cases hx
      exact hn.1.1

end Fragment

end SharpSmith
