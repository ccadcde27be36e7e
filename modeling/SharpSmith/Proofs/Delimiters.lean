import Mathlib.Tactic.Common
import SharpSmith.Fragment.Delimiters

/-!
# Balanced delimiters

`Balanced` says by its rules which tokens have balanced delimiters, and `Group` which ones are a
single group. Pairing the delimiters of some tokens succeeds just if they are balanced, and both
ways of passing over a group, `afterGroup` and `cutAtSemicolon?`, end where the group does.
-/

namespace SharpSmith.Fragment

/-- Tokens whose delimiters are balanced. -/
inductive Balanced : List Token → Prop where
  | nil : Balanced []
  | token {t ts} :
    t.opens = false →
    t.closes = false →
    Balanced ts →
    Balanced (t :: ts)
  | group {o ts c us} :
    o.opens = true →
    c.closes? = some o.text →
    Balanced ts →
    Balanced us →
    Balanced (o :: (ts ++ c :: us))

/-- Tokens that are one group, which starts with the given opener. -/
inductive Group (opener : String) : List Token → Prop where
  | mk {o ts c} :
    o.is opener = true →
    o.opens = true →
    c.closes? = some o.text →
    Balanced ts →
    Group opener (o :: (ts ++ [c]))

/-- A token that is no punctuator does not open a group. -/
lemma opens_of_kind {t : Token} (h : t.kind ≠ .punctuator) : t.opens = false := by
  simp [Token.opens, Token.is, h]

/-- A token that is no punctuator does not close a group. -/
lemma closes_of_kind {t : Token} (h : t.kind ≠ .punctuator) : t.closes = false := by
  simp [Token.closes, Token.closes?, Token.is, h]

/-- A token that closes a group does not open one. -/
lemma opens_of_closes {t : Token} (h : t.closes = true) : t.opens = false := by
  unfold Token.closes Token.closes? at h
  unfold Token.opens Token.is at *
  split at h
  case isTrue ht => simp_all
  split at h
  case isTrue ht => simp_all
  split at h
  case isTrue ht => simp_all
  case isFalse => cases h

/-- A token that opens a group is a punctuator. -/
lemma is_text_of_opens {t : Token} (h : t.opens = true) : t.is t.text = true := by
  simp only [Token.opens, Token.is, Bool.or_eq_true, Bool.and_eq_true, beq_iff_eq] at h
  simp only [Token.is, Bool.and_eq_true, beq_iff_eq, and_true]
  rcases h with (h | h) | h <;> exact h.1

/-- A token closes a group when it closes a certain one. -/
lemma closes_of_closes? {t : Token} {opening} (h : t.closes? = some opening) :
    t.closes = true := by
  rw [Token.closes, h]
  rfl

/-- A semicolon is no delimiter. -/
lemma of_is_semicolon {t : Token} (h : t.is ";" = true) : t.opens = false ∧ t.closes = false := by
  simp only [Token.is, Bool.and_eq_true, beq_iff_eq] at h
  simp [Token.opens, Token.closes, Token.closes?, Token.is, h.1, h.2]

/-- Balanced tokens one after the other are balanced. -/
lemma Balanced.append {ts us} (ht : Balanced ts) (hu : Balanced us) : Balanced (ts ++ us) := by
  induction ht with
  | nil => exact hu
  | token ho hc _ ih => exact .token ho hc ih
  | @group o ts c vs ho hc hts _ _ ih =>
    have := Balanced.group ho hc hts ih
    simpa using this

/-- A group is balanced. -/
lemma Group.balanced {opener g} (h : Group opener g) : Balanced g := by
  cases h with
  | mk _ ho hc ht => exact .group ho hc ht .nil

/-- What follows a token of balanced tokens that is no delimiter is balanced. -/
lemma Balanced.tail {t ts} (h : Balanced (t :: ts)) (ho : t.opens = false) : Balanced ts := by
  cases h with
  | token _ _ h => exact h
  | group ho' =>
    rw [ho] at ho'
    cases ho'

/-- Balanced tokens that start with an opener start with a group. -/
lemma Balanced.exists_group {opener o ts} (h : Balanced (o :: ts)) (hi : o.is opener = true)
    (ho : o.opens = true) :
    ∃ g us, ts = g ++ us ∧ Group opener (o :: g) ∧ Balanced us := by
  generalize e : o :: ts = all at h
  cases h with
  | nil => cases e
  | token ho' =>
    cases e
    rw [ho] at ho'
    cases ho'
  | @group _ ts c us _ hc hb hu =>
    obtain ⟨rfl, rfl⟩ := List.cons.inj e
    exact ⟨ts ++ [c], us, List.append_cons .., .mk hi ho hc hb, hu⟩

/-- A closer ends a group when no other one is open inside. -/
lemma afterGroup_closes_zero {c us} (h : c.closes = true) : afterGroup 0 (c :: us) = us := by
  simp [afterGroup, h, opens_of_closes h]

/-- A closer ends the group that is open inside. -/
lemma afterGroup_closes_succ {depth c us} (h : c.closes = true) :
    afterGroup (depth + 1) (c :: us) = afterGroup depth us := by
  simp [afterGroup, h, opens_of_closes h]

/-- Balanced tokens are passed over inside of a group. -/
lemma afterGroup_balanced {depth ts us} (h : Balanced ts) :
    afterGroup depth (ts ++ us) = afterGroup depth us := by
  induction h generalizing depth us with
  | nil => rfl
  | token ho hc _ ih => simp [afterGroup, ho, hc, ih]
  | @group o ts c vs ho hc _ _ ih₁ ih₂ =>
    have hstep : afterGroup depth (o :: (ts ++ c :: (vs ++ us))) =
        afterGroup (depth + 1) (ts ++ c :: (vs ++ us)) := by
      simp [afterGroup, ho]
    rw [List.cons_append, List.append_assoc, List.cons_append, hstep, ih₁,
      afterGroup_closes_succ (closes_of_closes? hc), ih₂]

/-- What is after a group starts where the group ends. -/
lemma afterGroup_group {opener o g us} (h : Group opener (o :: g)) :
    afterGroup 0 (g ++ us) = us := by
  generalize e : o :: g = all at h
  cases h with
  | @mk _ ts c _ _ hc ht =>
    obtain ⟨rfl, rfl⟩ := List.cons.inj e
    rw [List.append_assoc, afterGroup_balanced ht, List.singleton_append,
      afterGroup_closes_zero (closes_of_closes? hc)]

/-- No `;` is found in balanced tokens inside of a group. -/
lemma cutAtSemicolon?_balanced {depth ts us} (h : Balanced ts) :
    cutAtSemicolon? (depth + 1) (ts ++ us) =
      (cutAtSemicolon? (depth + 1) us).map fun r => (ts ++ r.1, r.2) := by
  induction h generalizing depth us with
  | nil => simp
  | token ho hc _ ih =>
    rw [List.cons_append, cutAtSemicolon?, if_neg (by simp)]
    simp only [ho, hc, Bool.false_eq_true, if_false]
    rw [ih, Option.map_map]
    rfl
  | group ho hc _ _ ih₁ ih₂ =>
    have hc' := closes_of_closes? hc
    rw [List.cons_append, List.append_assoc, List.cons_append, cutAtSemicolon?, if_neg (by simp)]
    simp only [ho, if_true]
    rw [ih₁, cutAtSemicolon?, if_neg (by simp)]
    simp only [opens_of_closes hc', hc', Bool.false_eq_true, if_false, if_true,
      Nat.add_sub_cancel]
    rw [ih₂, Option.map_map, Option.map_map, Option.map_map]
    simp [Function.comp_def]

/-- No `;` is found in a group. -/
lemma cutAtSemicolon?_group {opener g us} (h : Group opener g) :
    cutAtSemicolon? 0 (g ++ us) = (cutAtSemicolon? 0 us).map fun r => (g ++ r.1, r.2) := by
  cases h with
  | @mk o ts c hi ho hc ht =>
    have hc' := closes_of_closes? hc
    have hs : ∀ t : Token, t.opens = true ∨ t.closes = true → t.is ";" = false := by
      intro t h
      by_contra hn
      obtain ⟨h1, h2⟩ := of_is_semicolon (Bool.not_eq_false _ ▸ hn)
      simp [h1, h2] at h
    rw [List.cons_append, List.append_assoc, cutAtSemicolon?, if_neg (by simp [hs o (.inl ho)])]
    simp only [ho, if_true]
    rw [cutAtSemicolon?_balanced ht, List.singleton_append, cutAtSemicolon?, if_neg (by simp)]
    simp only [opens_of_closes hc', hc', Bool.false_eq_true, if_false, if_true,
      Nat.add_sub_cancel]
    rw [Option.map_map, Option.map_map]
    simp [Function.comp_def]

/-- The openers that wait for their closer after a token, innermost first, where `stack` waits
before it; none when the token is a closer that does not fit. -/
def Token.nest? (stack : List String) (t : Token) : Option (List String) :=
  if t.opens then some (t.text :: stack)
  else
    match t.closes?, stack with
    | none, _ => some stack
    | some _, [] => none
    | some opening, opener :: stack => if opener == opening then some stack else none

/-- The openers that wait for their closer after some tokens. -/
def waiting? (stack : List String) (ts : List Token) : Option (List String) :=
  ts.foldlM Token.nest? stack

/-- What waits after two lists of tokens is found one list after the other. -/
lemma waiting?_append {stack ts us} :
    waiting? stack (ts ++ us) = (waiting? stack ts).bind (waiting? · us) :=
  List.foldlM_append

/-- What waits after some tokens is found one token after the other. -/
lemma waiting?_cons {stack t ts} :
    waiting? stack (t :: ts) = (t.nest? stack).bind (waiting? · ts) :=
  List.foldlM_cons

/-- An opener waits for its closer. -/
lemma nest?_opens {stack} {t : Token} (h : t.opens = true) :
    t.nest? stack = some (t.text :: stack) := by
  simp [Token.nest?, h]

/-- What is no delimiter changes nothing. -/
lemma nest?_token {stack} {t : Token} (ho : t.opens = false) (hc : t.closes = false) :
    t.nest? stack = some stack := by
  have hn : t.closes? = none := by simpa [Token.closes] using hc
  simp [Token.nest?, ho, hn]

/-- A closer that fits ends the wait of the innermost opener. -/
lemma nest?_closes {stack opening} {t : Token} (h : t.closes? = some opening) :
    t.nest? (opening :: stack) = some stack := by
  simp [Token.nest?, opens_of_closes (closes_of_closes? h), h]

/-- A closer only fits the innermost opener. -/
lemma eq_cons_of_nest? {stack opening r} {t : Token} (h : t.closes? = some opening)
    (hn : t.nest? stack = some r) : stack = opening :: r := by
  cases stack with
  | nil => simp [Token.nest?, opens_of_closes (closes_of_closes? h), h] at hn
  | cons opener rest =>
    simp [Token.nest?, opens_of_closes (closes_of_closes? h), h] at hn
    rw [hn.1, hn.2]

/-- Balanced tokens leave the openers that wait as they are. -/
lemma Balanced.waiting?_eq {stack ts} (h : Balanced ts) : waiting? stack ts = some stack := by
  induction h generalizing stack with
  | nil => rfl
  | token ho hc _ ih => rw [waiting?_cons, nest?_token ho hc, Option.bind_some, ih]
  | group ho hc _ _ ih₁ ih₂ =>
    rw [waiting?_cons, nest?_opens ho, Option.bind_some, waiting?_append, ih₁, Option.bind_some,
      waiting?_cons, nest?_closes hc, Option.bind_some, ih₂]

/-- Tokens that end the wait of the given openers: balanced tokens and a closer for each of them,
and balanced tokens at the end. -/
inductive Closing : List String → List Token → Prop where
  | nil {ts} :
    Balanced ts →
    Closing [] ts
  | cons {ts c opener stack us} :
    Balanced ts →
    c.closes? = some opener →
    Closing stack us →
    Closing (opener :: stack) (ts ++ c :: us)

/-- Balanced tokens may stand before tokens that end the wait. -/
lemma Closing.append {stack ts us} (ht : Balanced ts) (hu : Closing stack us) :
    Closing stack (ts ++ us) := by
  cases hu with
  | nil hb => exact .nil (ht.append hb)
  | cons hb hc hu =>
    rw [← List.append_assoc]
    exact .cons (ht.append hb) hc hu

/-- Tokens after which no opener waits end the wait of those before. -/
lemma closing_of_waiting? {stack ts} (h : waiting? stack ts = some []) : Closing stack ts := by
  induction ts generalizing stack with
  | nil =>
    cases h
    exact .nil .nil
  | cons t ts ih =>
    cases ho : t.opens with
    | true =>
      rw [waiting?_cons, nest?_opens ho, Option.bind_some] at h
      cases ih h with
      | @cons ts c _ _ us hb hc hu =>
        have hg := Closing.append (.group ho hc hb .nil) hu
        simpa using hg
    | false =>
      cases hc : t.closes? with
      | none =>
        have hc' : t.closes = false := by simp [Token.closes, hc]
        rw [waiting?_cons, nest?_token ho hc', Option.bind_some] at h
        exact Closing.append (.token ho hc' .nil) (ih h)
      | some opening =>
        rw [waiting?_cons] at h
        obtain ⟨rest, hn, hw⟩ := Option.bind_eq_some_iff.1 h
        rw [eq_cons_of_nest? hc hn]
        exact .cons .nil hc (ih hw)

/-- Tokens are balanced just if they leave nothing waiting. -/
lemma balanced_iff_waiting? {ts} : Balanced ts ↔ waiting? [] ts = some [] := by
  refine ⟨Balanced.waiting?_eq, fun h => ?_⟩
  cases closing_of_waiting? h with
  | nil hb => exact hb

/-- Pairing delimiters succeeds when every opener that waits is closed. -/
lemma exists_pairsFrom_iff {index stack ts} :
    (∃ pairs, Delimiters.pairsFrom index stack ts = .ok pairs) ↔
      waiting? (stack.map fun s => s.2.text) ts = some [] := by
  induction ts generalizing index stack with
  | nil =>
    cases stack with
    | nil => simp [Delimiters.pairsFrom, waiting?]
    | cons => simp [Delimiters.pairsFrom, waiting?]
  | cons t ts ih =>
    rw [Delimiters.pairsFrom.eq_def, waiting?_cons]
    cases ho : t.opens with
    | true =>
      simp only [ho, if_true]
      rw [nest?_opens ho]
      exact ih
    | false =>
      simp only [ho, Bool.false_eq_true, if_false]
      cases hc : t.closes? with
      | none =>
        rw [nest?_token ho (by simp [Token.closes, hc])]
        exact ih
      | some opening =>
        cases stack with
        | nil => simp [Token.nest?, ho, hc]
        | cons s stack =>
          simp only [Token.nest?, ho, hc, List.map_cons, Bool.false_eq_true, if_false]
          split
          case isFalse => simp
          case isTrue =>
            rw [Option.bind_some]
            refine Iff.trans ?_ (ih : (∃ pairs, Delimiters.pairsFrom (index + 1) stack ts = _) ↔ _)
            cases Delimiters.pairsFrom (index + 1) stack ts <;> simp

/-- Pairing the delimiters of tokens succeeds just if they are balanced. -/
theorem exists_partners_iff {ts} :
    (∃ partners, Delimiters.partners ts = .ok partners) ↔ Balanced ts := by
  have hpairs : (∃ pairs, Delimiters.pairsFrom 0 [] ts = .ok pairs) ↔ waiting? [] ts = some [] :=
    exists_pairsFrom_iff
  rw [balanced_iff_waiting?, ← hpairs]
  unfold Delimiters.partners
  cases Delimiters.pairsFrom 0 [] ts <;> simp [Except.map]

end SharpSmith.Fragment
