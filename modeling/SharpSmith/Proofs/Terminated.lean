import SharpSmith.Proofs.FixedPoint
import SharpSmith.Proofs.LastLine

/-!
# Expressions as statements

An expression is what is a statement when a `;` is put after it, unless its first tokens start
another kind of statement. The roles of its tokens do not depend on the `;`, so both are written
alike.
-/

namespace SharpSmith

namespace Fragment

/-- What follows a token does not matter if it is a `;`. -/
lemma role_semicolon {generic t x p k} (hx : x.is ";" = true) :
    role generic t p (some x) k = role generic t p none k := by
  simp only [Token.is, Bool.and_eq_true, beq_iff_eq] at hx
  have hnullable : isNullable t p (some x) = isNullable t p none := by
    simp [isNullable, hx]
  unfold role signRole
  rw [hnullable]

/-- A `;` after some tokens does not change their roles. -/
lemma assignRoles_semicolon {x : Token} (hx : x.is ";" = true) (p : Option (Token × Role))
    (k : Nat) (xs : List (Token × Bool)) :
    ∃ r, assignRoles p k (xs ++ [(x, false)]) = assignRoles p k xs ++ [(x, r)] := by
  induction xs generalizing p k with
  | nil => exact ⟨_, rfl⟩
  | cons y xs ih =>
    obtain ⟨t, generic⟩ := y
    have hnext : role generic t p ((xs ++ [(x, false)]).head?.map (·.1)) k =
        role generic t p (xs.head?.map (·.1)) k := by
      cases xs with
      | nil => exact role_semicolon hx
      | cons => rfl
    rw [List.cons_append, assignRoles, assignRoles, hnext]
    obtain ⟨r, hr⟩ := ih (some (t, role generic t p (xs.head?.map (·.1)) k)) _
    rw [hr]
    exact ⟨r, rfl⟩

/-- A `;` at the end leaves the roles before it as they are. -/
lemma roles_semicolon {x : Token} (hx : x.is ";" = true) (ts : List Token) :
    ∃ r, roles (ts ++ [x]) = roles ts ++ [(x, r)] := by
  have hcut : inTypeArguments x = false := by
    rw [inTypeArguments_is hx]
    decide
  obtain ⟨r, hr⟩ := assignRoles_semicolon hx none 0 (flagged ts)
  refine ⟨r, ?_⟩
  rw [roles, ← flagged, flagged_cut hcut]
  exact hr

/-- A `;` after some tokens is joined to them without a space. -/
lemma joinAfter_semicolon {p : Token × Role} {x : Token} {r xs} (hx : x.is ";" = true) :
    joinAfter p (xs ++ [(x, r)]) = joinAfter p xs ++ ";" := by
  induction xs generalizing p with
  | nil =>
    simp only [Token.is, Bool.and_eq_true, beq_iff_eq] at hx
    have hspace : spaceBetween p (x, r) = false := by
      simp [spaceBetween, hx]
    simp [joinAfter, hspace, hx]
  | cons y xs ih =>
    rw [List.cons_append, joinAfter, joinAfter, ih]
    exact (String.append_assoc ..).symm

/-- A `;` at the end is put there without a space. -/
lemma joinTokens_semicolon {x : Token} (hx : x.is ";" = true) {ts : List Token} :
    joinTokens (ts ++ [x]) = joinTokens ts ++ ";" := by
  obtain ⟨r, hr⟩ := roles_semicolon hx ts
  rw [joinTokens, joinTokens, hr]
  cases roles ts with
  | nil =>
    simp only [Token.is, Bool.and_eq_true, beq_iff_eq] at hx
    simp [joinRoles, joinAfter, hx]
  | cons y ys =>
    rw [List.cons_append, joinRoles, joinRoles, joinAfter_semicolon hx, String.append_assoc]

end Fragment

open Fragment

namespace Statement

/-- Whether tokens are there and start like no statement that is a block or has a header or a body
of its own. -/
def startsPlainly : List Token → Bool
  | [] => false
  | t :: ts =>
    !(t.is "\x7b" || t.isKeywordIn headed || t.isKeyword "do" || t.isKeyword "try" ||
      (t.isKeyword "using" && startsAt "(" ts) || (t.isKeywordIn blockModes && startsAt "\x7b" ts))

/-- Balanced tokens are a run just if they have no `;` outside of groups. -/
lemma run_iff_cutAtSemicolon? {ts} (hb : Balanced ts) : Run ts ↔ cutAtSemicolon? 0 ts = none := by
  constructor
  · intro h
    clear hb
    induction h with
    | nil => rfl
    | token ho hc hs _ ih => simp [cutAtSemicolon?, ho, hc, hs, ih]
    | group hg _ ih => rw [cutAtSemicolon?_group hg, ih]; rfl
  · intro h
    induction hb with
    | nil => exact .nil
    | @token t ts ho hc _ ih =>
      rw [cutAtSemicolon?] at h
      split at h
      case isTrue => cases h
      case isFalse hs =>
        simp only [ho, hc, Bool.false_eq_true, if_false, Option.map_eq_none_iff] at h
        exact .token ho hc (by simpa using hs) (ih h)
    | @group o ts c us ho hc hts _ _ ih =>
      have hg : Group o.text (o :: (ts ++ [c])) := .mk (is_text_of_opens ho) ho hc hts
      rw [List.append_cons, ← List.cons_append] at h ⊢
      rw [cutAtSemicolon?_group hg, Option.map_eq_none_iff] at h
      exact .group hg (ih h)

/-- A reserved word is one of a list that holds it. -/
lemma isKeywordIn_of_isKeyword {t : Token} {word words} (h : t.isKeyword word = true)
    (hw : words.contains word = true) : t.isKeywordIn words = true := by
  simp only [Token.isKeyword, Token.isKeywordIn, Bool.and_eq_true, beq_iff_eq] at *
  exact ⟨h.1, by rw [h.2, hw]⟩

/-- A statement with a header in parentheses does not start plainly. -/
lemma startsPlainly_of_header {t : Token} {ts} (h : t.isKeywordIn headed = true) :
    startsPlainly (t :: ts) = false := by
  simp [startsPlainly, h]

/-- A loop does not start plainly. -/
lemma startsPlainly_of_loop {t : Token} {header ts} (h : t.isKeywordIn loops = true)
    (hheader : Group "(" header) : startsPlainly (t :: header ++ ts) = false := by
  by_cases husing : t.isKeyword "using" = true
  · have hstarts : startsAt "(" (header ++ ts) = true := by simp [startsAt_group hheader]
    simp [startsPlainly, husing, hstarts]
  · refine startsPlainly_of_header ?_
    simp only [Token.isKeyword, Token.isKeywordIn, Bool.and_eq_true, beq_iff_eq, not_and] at *
    refine ⟨h.1, ?_⟩
    have hne := husing h.1
    have hmem := h.2
    simp only [loops, headed, List.contains_eq_mem, List.mem_cons, List.not_mem_nil, or_false,
      decide_eq_true_eq] at hmem ⊢
    tauto

/-- A statement that starts plainly is a run of operands and operators, and a `;`. -/
lemma Stmt.exists_run {s} (h : Stmt s) (hp : startsPlainly s = true) :
    ∃ ts t, s = ts ++ [t] ∧ t.is ";" = true ∧ Run ts ∧ operandFault? ts = none := by
  cases h with
  | basic h =>
    cases h with
    | block hbody =>
      cases hbody with
      | mk hi => simp [startsPlainly, hi] at hp
    | @empty t ht => exact ⟨[], t, rfl, ht, .nil, rfl⟩
    | switch ht =>
      rw [List.cons_append, startsPlainly_of_header (isKeywordIn_of_isKeyword ht (by decide))] at hp
      cases hp
    | handled ht => simp [startsPlainly, ht] at hp
    | @mode t body ht hbody =>
      have hstarts : startsAt "\x7b" body = true := by
        rw [← List.append_nil body, startsAt_group hbody]
        rfl
      simp [startsPlainly, ht, hstarts] at hp
    | simple _ hrun _ hfault ht => exact ⟨_, _, rfl, ht, hrun, hfault⟩
  | ifThen ht | ifElse ht =>
    rw [List.cons_append, startsPlainly_of_header (isKeywordIn_of_isKeyword ht (by decide))] at hp
    cases hp
  | loop ht hheader =>
    rw [startsPlainly_of_loop ht hheader] at hp
    cases hp
  | doWhile ht => simp [startsPlainly, ht] at hp

/-- Tokens with a `;` at the end are balanced just if they are balanced without it. -/
lemma balanced_semicolon_iff {ts t} (ht : Token.is t ";" = true) :
    Balanced (ts ++ [t]) ↔ Balanced ts := by
  obtain ⟨ho, hc⟩ := of_is_semicolon ht
  constructor
  · intro h
    rw [balanced_iff_waiting?, waiting?_append, Option.bind_eq_some_iff] at h
    obtain ⟨stack, hstack, hlast⟩ := h
    rw [waiting?_cons, nest?_token ho hc] at hlast
    cases hlast
    exact balanced_iff_waiting?.2 hstack
  · exact fun h => h.append (.token ho hc .nil)

/-- A `;` at the end does not change how tokens start. -/
lemma startsPlainly_semicolon {ts x} (hx : Token.is x ";" = true) (hp : startsPlainly ts = true) :
    startsPlainly (ts ++ [x]) = true := by
  cases ts with
  | nil => cases hp
  | cons t ts =>
    cases ts with
    | cons => exact hp
    | nil =>
      have hnext : ∀ text, ";" ≠ text → startsAt text [x] = false := by
        intro text hne
        simp only [Token.is, Bool.and_eq_true, beq_iff_eq] at hx
        simp [startsAt, Token.is, hx, hne]
      rw [List.singleton_append, startsPlainly, hnext _ (by decide), hnext _ (by decide)]
      exact hp

/-- Tokens that start plainly and have no `;` start no form. -/
lemma startsForm_of_startsPlainly {ts} (hp : startsPlainly ts = true)
    (hcut : cutAtSemicolon? 0 ts = none) : startsForm ts = false := by
  cases ts with
  | nil => rfl
  | cons t ts =>
    have hs : t.is ";" = false := by
      by_contra hs
      rw [cutAtSemicolon?, if_pos (by simpa using hs)] at hcut
      cases hcut
    simp only [startsPlainly, Bool.not_eq_true', Bool.or_eq_false_iff] at hp
    simp [startsForm, hs, hp]

/-- Tokens that start plainly and a `;` hold a statement just if the tokens are an expression, and
then they are the statement. -/
lemma holdsOnly_semicolon_iff {size ts used x} (hb : Balanced ts) (hp : startsPlainly ts = true)
    (hx : Token.is x ";" = true) :
    Stmt used ∧ HoldsOnly used (ts ++ [x]) ↔
      used = ts ++ [x] ∧ Expression.fault? size ts = none := by
  rw [Expression.fault?_eq_none_iff, ← run_iff_cutAtSemicolon? hb]
  constructor
  · rintro ⟨hs, e | ⟨u, e, -, hlast⟩⟩
    · subst e
      obtain ⟨us, t, e, ht, hrun, hfault⟩ := hs.exists_run (startsPlainly_semicolon hx hp)
      obtain ⟨rfl, -⟩ := List.append_inj' e rfl
      refine ⟨rfl, ?_, hrun, hfault⟩
      rintro rfl
      cases hp
    · obtain ⟨rfl, -⟩ := List.append_inj' e rfl
      obtain ⟨us, t, rfl, ht, -⟩ := hs.exists_run hp
      simp only [Token.is, Bool.and_eq_true, beq_iff_eq] at ht
      simp [Token.is, ht] at hlast
  · rintro ⟨rfl, hne, hrun, hfault⟩
    have hform := startsForm_of_startsPlainly hp ((run_iff_cutAtSemicolon? hb).1 hrun)
    exact ⟨.basic (.simple hne hrun hform hfault hx), .inl rfl⟩

/-- An expression that starts plainly is a statement when a `;` stands after it on a line of its
own, and nothing else is such a statement; the statement is written as the expression and the
`;`. -/
theorem expression_terminated {text : String}
    (hp : ∀ ts, tokenize false text = .ok ts → startsPlainly ts = true) :
    ((∃ e, Expression.parse text = .ok e) ↔ ∃ s, parse (terminated text) = .ok s) ∧
      ∀ e s, Expression.parse text = .ok e → parse (terminated text) = .ok s →
        s.text = e.text ++ ";" := by
  have hx : (semicolonAt (text.utf8ByteSize + 1)).is ";" = true := rfl
  have hstatement : ∀ s, parse (terminated text) = .ok s ↔
      ∃ ts, tokenize false text = .ok ts ∧ Balanced ts ∧
        Expression.fault? text.utf8ByteSize ts = none ∧
        s = ⟨kindOf (ts ++ [semicolonAt (text.utf8ByteSize + 1)]), joinTokens ts ++ ";"⟩ := by
    intro s
    rw [parse_eq_ok_iff]
    constructor
    · rintro ⟨us, used, hus, hb, hs, hholds, rfl⟩
      obtain ⟨ts, hts, rfl⟩ := tokenize_terminated.1 hus
      have hb := (balanced_semicolon_iff hx).1 hb
      obtain ⟨rfl, hfault⟩ := (holdsOnly_semicolon_iff hb (hp ts hts) hx).1 ⟨hs, hholds⟩
      exact ⟨ts, hts, hb, hfault, by rw [joinTokens_semicolon hx]⟩
    · rintro ⟨ts, hts, hb, hfault, rfl⟩
      obtain ⟨hs, hholds⟩ := (holdsOnly_semicolon_iff hb (hp ts hts) hx).2 ⟨rfl, hfault⟩
      refine ⟨_, _, tokenize_terminated.2 ⟨ts, hts, rfl⟩, (balanced_semicolon_iff hx).2 hb, hs,
        hholds, ?_⟩
      rw [joinTokens_semicolon hx]
  constructor
  · constructor
    · rintro ⟨e, he⟩
      obtain ⟨ts, hts, hb, hfault, -⟩ := Expression.parse_eq_ok_iff.1 he
      exact ⟨_, (hstatement _).2 ⟨ts, hts, hb, hfault, rfl⟩⟩
    · rintro ⟨s, hs⟩
      obtain ⟨ts, hts, hb, hfault, -⟩ := (hstatement s).1 hs
      exact ⟨_, Expression.parse_eq_ok_iff.2 ⟨ts, hts, hb, hfault, rfl⟩⟩
  · intro e s he hs
    obtain ⟨ts, hts, -, -, rfl⟩ := Expression.parse_eq_ok_iff.1 he
    obtain ⟨us, hus, -, -, rfl⟩ := (hstatement s).1 hs
    cases hts.symm.trans hus
    rfl

/-- An operand that looks like a type, with a `?` after it and a comment. -/
def nullableCast : String :=
  "() => \x7b f(); \x7d as T? // ;"

/-- A `?` at the end is a mark of the type also when a `;` follows it. -/
theorem expression_terminated_nullable :
    (∀ ts, tokenize false nullableCast = .ok ts → startsPlainly ts = true) ∧
      ∃ e s, Expression.parse nullableCast = .ok e ∧
        parse (terminated nullableCast) = .ok s ∧ s.text = e.text ++ ";" ∧
        e.text = "() => \x7b f(); \x7d as T?" := by
  have hp : ∀ ts, tokenize false nullableCast = .ok ts → startsPlainly ts = true := by
    have hall : (tokenize false nullableCast).toOption.all startsPlainly = true := by
      decide +kernel
    intro ts hts
    rw [hts] at hall
    exact hall
  have he : Expression.parse nullableCast = .ok ⟨"() => \x7b f(); \x7d as T?"⟩ := by decide +kernel
  obtain ⟨hiff, htext⟩ := expression_terminated hp
  obtain ⟨s, hs⟩ := hiff.1 ⟨_, he⟩
  exact ⟨hp, _, s, he, hs, htext _ _ he hs, rfl⟩

end Statement

end SharpSmith
