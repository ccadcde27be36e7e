import SharpSmith.Proofs.Spelling
import SharpSmith.Proofs.StatementGrammar
import SharpSmith.Proofs.TypeArguments

/-!
# Tokens that are put together

The text that `joinRoles` makes of tokens reads back as these tokens, unless a space is left out
between two of which the first goes on with the second: `fuses` finds such a pair, and
`bareTokens?_joinRoles` says that nothing else goes wrong.
-/

namespace SharpSmith.Fragment

/-- Whether the token `p` goes on with the token `c` when that is written directly after it: with
another sign of a longer punctuator, a digit after a point, or the sign of an exponent. -/
def runsOn (p c : Token) : Bool :=
  c.text.toList.head?.any fun x =>
    match p.kind with
    | .punctuator =>
      punctuators.contains (String.ofList (p.text.toList ++ [x])) || (p.text == "." && x.isDigit)
    | .number =>
      (x == '+' || x == '-') && !isHex (p.text.toList.headD ' ') p.text.toList.tail &&
        (p.text.toList.getLastD ' ' == 'e' || p.text.toList.getLastD ' ' == 'E')
    | _ => false

/-- Whether two tokens in a row have no space between them although the first goes on with the
second. -/
def fuses : List (Token × Role) → Bool
  | p :: c :: ts => (!spaceBetween p c && runsOn p.1 c.1) || fuses (c :: ts)
  | _ => false

/-- A token of a fragment with its role: it has the spelling of its kind, what is no sign has no
role of one, and the signs that start with those of a comment are infix operators. -/
structure Placed (x : Token × Role) : Prop where
  spelling : Spelling x.1.kind x.1.text.toList
  notDirective : x.1.kind ≠ .directive
  plain : x.1.kind ≠ .punctuator → x.2 = .plain
  between : x.1.kind = .punctuator → x.1.text ∈ ["/", "/=", "*", "*="] → x.2 = .between

/-- Each token gets a role that is computed from it and whether it is a bracket of type
arguments. -/
lemma getElem?_assignRoles {x previous pending ts} {k : Nat}
    (h : (assignRoles previous pending ts)[k]? = some x) :
    ∃ generic, ts[k]? = some (x.1, generic) ∧ ∃ p n j, x.2 = role generic x.1 p n j := by
  induction ts generalizing previous pending k with
  | nil => cases h
  | cons t ts ih =>
    obtain ⟨t, generic⟩ := t
    rw [assignRoles] at h
    cases k with
    | zero =>
      cases h
      exact ⟨generic, rfl, _, _, _, rfl⟩
    | succ k => exact ih h

/-- The role of a token comes from what stands around it. -/
lemma mem_assignRoles {x previous pending ts} (h : x ∈ assignRoles previous pending ts) :
    ∃ generic, (x.1, generic) ∈ ts ∧ ∃ p n k, x.2 = role generic x.1 p n k := by
  obtain ⟨k, hk⟩ := List.mem_iff_getElem?.1 h
  obtain ⟨generic, ht, hr⟩ := getElem?_assignRoles hk
  exact ⟨generic, List.mem_of_getElem? ht, hr⟩

/-- The tokens stay when roles are assigned. -/
lemma map_fst_assignRoles {previous pending ts} :
    (assignRoles previous pending ts).map Prod.fst = ts.map Prod.fst := by
  induction ts generalizing previous pending with
  | nil => rfl
  | cons t ts ih =>
    rw [assignRoles, List.map_cons, List.map_cons, ih]

/-- The tokens stay when they get their roles. -/
@[simp] lemma map_fst_roles {ts} : (roles ts).map Prod.fst = ts := by
  rw [roles, map_fst_assignRoles]
  exact List.map_fst_zip (Nat.le_of_eq length_genericBrackets.symm)

/-- The signs that start with those of a comment are infix operators. -/
lemma role_of_solidus {generic t p n k} (hk : t.kind = .punctuator)
    (hg : generic = true → (t.is "<" || t.is ">") = true)
    (ht : t.text ∈ ["/", "/=", "*", "*="]) : role generic t p n k = .between := by
  have hgeneric : generic = false := by
    cases generic with
    | false => rfl
    | true =>
      have := hg rfl
      simp only [List.mem_cons, List.not_mem_nil, or_false] at ht
      rcases ht with e | e | e | e <;> simp [Token.is, e] at this
  subst hgeneric
  simp only [List.mem_cons, List.not_mem_nil, or_false] at ht
  rcases ht with e | e | e | e <;> simp [role, signRole, hk, e, infixOperators]

/-- The tokens of a fragment are placed when they get their roles. -/
lemma placed_of_mem_roles {ts} (h : ∀ t ∈ ts, Spelling t.kind t.text.toList ∧ t.kind ≠ .directive) :
    ∀ x ∈ roles ts, Placed x := by
  intro x hx
  have hmem : x.1 ∈ ts := by
    have := List.mem_map_of_mem (f := Prod.fst) hx
    rwa [map_fst_roles] at this
  obtain ⟨g, hg, p, n, k, hr⟩ := mem_assignRoles hx
  refine ⟨(h _ hmem).1, (h _ hmem).2, fun hk => ?_, fun hk ht => ?_⟩
  · rw [hr, role, if_pos (by simpa using hk)]
  · rw [hr]
    exact role_of_solidus hk (is_angle_of_genericBrackets hg) ht

/-- No punctuator holds white space. -/
lemma isBlank_of_mem_punctuator : ∀ p ∈ punctuators, ∀ c ∈ p.toList, Text.isBlank c = false := by
  have table : ∀ p ∈ punctuators, p.toList.any Text.isBlank = false := by decide
  intro p hp c hc
  simpa using List.any_eq_false.1 (table p hp) c hc

/-- No punctuator starts with a character of a word. -/
lemma continuesWord_of_punctuator : ∀ p ∈ punctuators, ∀ c ∈ p.toList.head?,
    Text.continuesWord c = false := by
  have table : ∀ p ∈ punctuators, p.toList.head?.any Text.continuesWord = false := by
    decide
  intro p hp c hc
  have h := table p hp
  rwa [Option.mem_def.1 hc] at h

/-- White space ends every token. -/
lemma Ends.blank {kind t x r} (hx : Text.isBlank x = true) (hk : kind ≠ .directive) :
    Ends kind t (x :: r) := by
  have hw := Text.continuesWord_of_isBlank hx
  have hne : ∀ y, Text.isBlank y = false → x ≠ y := by
    rintro y hy rfl
    rw [hx] at hy
    cases hy
  cases kind with
  | identifier | keyword => simpa [Ends] using hw
  | number =>
    simp only [Ends]
    rw [numberBody_cons, if_neg]
    simp [hw, hne '+' (by decide), hne '-' (by decide), hne '.' (by decide)]
  | string => simpa [Ends] using hne '"' (by decide)
  | character => trivial
  | punctuator =>
    rintro y ⟨⟩
    refine ⟨fun hmem => ?_, fun hpoint => ?_, fun hcomment => ?_⟩
    · have := isBlank_of_mem_punctuator _ hmem x (by simp)
      rw [hx] at this
      cases this
    · rw [Text.continuesWord_of_isDigit hpoint.2] at hw
      cases hw
    · exact hcomment.2.elim (hne '/' (by decide)) (hne '*' (by decide))
  | directive => exact absurd rfl hk

/-- A token that no sign starts takes no part in a text that is joined without a space unless a
sign follows. -/
lemma kind_of_glued {p c : Token × Role} (hp : Placed p) (hc : Placed c)
    (hglue : spaceBetween p c = false) (hk : p.1.kind ≠ .punctuator) :
    c.1.kind = .punctuator := by
  by_contra hn
  obtain ⟨⟨pk, pt, _, _⟩, pr⟩ := p
  obtain ⟨⟨ck, ct, _, _⟩, cr⟩ := c
  have hpr : pr = .plain := hp.plain hk
  have hcr : cr = .plain := hc.plain hn
  subst hpr hcr
  simp only at hk hn
  simp [spaceBetween, Token.is, hk, hn] at hglue

/-- A token that starts with a sign of a comment is an operator. -/
lemma Spelling.of_solidus {kind x w} (h : Spelling kind (x :: w)) (hx : x = '/' ∨ x = '*') :
    kind = .punctuator ∧ String.ofList (x :: w) ∈ ["/", "/=", "*", "*="] := by
  have signs : ∀ p ∈ punctuators, p.toList.head? = some '/' ∨ p.toList.head? = some '*' →
      p ∈ ["/", "/=", "*", "*="] := by
    decide
  generalize ht : x :: w = t at h
  cases h with
  | punctuator hp =>
    refine ⟨rfl, ?_⟩
    rw [String.ofList_toList]
    refine signs _ hp ?_
    rw [← ht]
    simpa using hx
  | word hc =>
    obtain ⟨rfl, -⟩ := List.cons.inj ht
    rcases hx with rfl | rfl <;> exact absurd hc (by decide)
  | number hc =>
    obtain ⟨rfl, -⟩ := List.cons.inj ht
    rcases hx with rfl | rfl <;> simp at hc
  | quoted hl => rcases hl with rfl | rfl <;> cases ht <;> simp at hx
  | verbatim hl => rcases hl with rfl | rfl | rfl <;> cases ht <;> simp at hx
  | escaped | character | directive => cases ht; simp at hx

/-- A `/` stands apart from a sign that would start a comment with it. -/
lemma spaceBetween_solidus {p c : Token × Role} {x w} (hp : Placed p) (hc : Placed c)
    (hk : p.1.kind = .punctuator) (ht : p.1.text = "/") (hw : c.1.text.toList = x :: w)
    (hx : x = '/' ∨ x = '*') : spaceBetween p c = true := by
  have hs := hc.spelling
  rw [hw] at hs
  obtain ⟨hck, hct⟩ := hs.of_solidus hx
  rw [← hw, String.ofList_toList] at hct
  have hpr := hp.between hk (by simp [ht])
  have hcr := hc.between hck hct
  obtain ⟨⟨pk, pt, _, _⟩, pr⟩ := p
  obtain ⟨⟨ck, ct, _, _⟩, cr⟩ := c
  simp only at hk ht hck hct hpr hcr
  subst hk ht hck hpr hcr
  simp only [List.mem_cons, List.not_mem_nil, or_false] at hct
  rcases hct with rfl | rfl | rfl | rfl <;> simp [spaceBetween, Token.is, isShift]

/-- A text that starts with a punctuator is read at least that far. -/
lemma exists_punctuatorLexeme {q c w r} (hq : q ∈ punctuators) (e : q.toList = c :: w) :
    ∃ n, punctuatorLexeme c (w ++ r) = .ok ⟨.token .punctuator, n⟩ ∧ w.length ≤ n := by
  have hpre : q.toList.isPrefixOf (q.toList ++ r) = true :=
    List.isPrefixOf_iff_prefix.2 (List.prefix_append _ _)
  unfold punctuatorLexeme
  rw [← List.cons_append, ← e]
  cases hp : punctuators.find? (fun p => p.toList.isPrefixOf (q.toList ++ r)) with
  | none => exact absurd hpre (by simpa using List.find?_eq_none.1 hp q hq)
  | some p =>
    refine ⟨p.length - 1, rfl, ?_⟩
    by_contra hlt
    have hlen : p.toList.length ≤ q.toList.length := by
      rw [e, List.length_cons, String.length_toList]
      omega
    -- a shorter punctuator would be found at the longer one's own text too
    have hfind : punctuators.find? (fun s => s.toList.isPrefixOf q.toList) = some p := by
      rw [List.find?_eq_some_iff_append] at hp ⊢
      obtain ⟨hpq, as, bs, hsplit, has⟩ := hp
      refine ⟨?_, as, bs, hsplit, fun a ha => ?_⟩
      · rw [List.isPrefixOf_iff_prefix] at hpq ⊢
        exact List.prefix_of_prefix_length_le hpq (List.prefix_append _ _) hlen
      · have hna := has a ha
        rw [Bool.not_eq_true', ← Bool.not_eq_true, List.isPrefixOf_iff_prefix] at hna ⊢
        exact fun hqa => hna (hqa.trans (List.prefix_append _ _))
    rw [find?_punctuator q hq] at hfind
    cases hfind
    rw [← String.length_toList, e, List.length_cons] at hlt
    exact hlt (Nat.le_refl _)

/-- A sign or a number with which the rest goes on is read on, as a longer token or one of another
kind. -/
lemma lexeme_of_not_ends {kind c w r} (directives lineStart : Bool) (h : Spelling kind (c :: w))
    (he : ¬Ends kind (c :: w) r) (hk : kind = .punctuator ∨ kind = .number)
    (hcomment : c :: w = ['/'] → ∀ x ∈ r.head?, ¬(x = '/' ∨ x = '*'))
    (hword : kind = .number → ∀ x ∈ r.head?, Text.continuesWord x = false) :
    ∃ kind' n, lexeme directives lineStart c (w ++ r) = .ok ⟨.token kind', n⟩ ∧
      ¬(kind' = kind ∧ n = w.length) := by
  rcases hk with rfl | rfl
  · simp only [Ends, not_forall] at he
    obtain ⟨x, hx, he⟩ := he
    obtain ⟨r, rfl⟩ : ∃ r', r = x :: r' := by
      cases r with
      | nil => cases hx
      | cons y r => cases hx; exact ⟨r, rfl⟩
    by_cases hpoint : c :: w = ['.'] ∧ x.isDigit = true
    · obtain ⟨⟨rfl, rfl⟩, hd⟩ := hpoint
      exact ⟨.number, _, lexeme_of_number (.inr ⟨rfl, by simpa using hd⟩), by simp⟩
    · have hq : String.ofList (c :: w ++ [x]) ∈ punctuators := by
        by_contra hq
        exact he ⟨hq, hpoint, fun hs => hcomment hs.1 x rfl hs.2⟩
      have e : (String.ofList (c :: w ++ [x])).toList = c :: (w ++ [x]) := by simp
      obtain ⟨hb, h1, h2, h3, h4, h5, hd, hs, hslash, hdot⟩ :=
        punctuator_chars _ hq c (by rw [e]; rfl)
      rw [e, List.tail_cons] at hslash hdot
      have hhead : (w ++ x :: r).head? = (w ++ [x]).head? := by cases w <;> rfl
      have hsign : lexeme directives lineStart c (w ++ x :: r) =
          punctuatorLexeme c (w ++ x :: r) := by
        refine lexeme_of_sign hb h1 h2 h3 h4 h5 hd hs (by rwa [hhead]) fun hc => ?_
        rw [hhead, Option.any_eq_false]
        intro y hy
        simpa using hdot hc y hy
      obtain ⟨n, hn, hle⟩ := exists_punctuatorLexeme (r := r) hq e
      rw [List.append_assoc, List.singleton_append] at hn
      refine ⟨_, n, hsign.trans hn, fun hn => ?_⟩
      rw [hn.2, List.length_append, List.length_singleton] at hle
      exact absurd hle (Nat.not_succ_le_self _)
  · have hr := hword rfl
    obtain ⟨hc, hw⟩ := h.of_number
    refine ⟨_, _, lexeme_of_number (startsNumber_append hc), fun hn => he ?_⟩
    have hn : numberBody (isHex c (w ++ r)) c (w ++ r) = w.length := hn.2
    rw [isHex_append hr, numberBody_append hw, Nat.add_eq_left] at hn
    show numberBody (isHex c w) ((c :: w).getLastD ' ') r = 0
    rwa [List.getLastD_cons]

/-- A token that the rest does not go on with comes before what is read of the rest. -/
lemma bareTokens?_of_ends {kind t r directives lineStart} (h : Spelling kind t)
    (hk : kind ≠ .directive) (he : Ends kind t r) :
    bareTokens? directives lineStart (t ++ r) =
      (bareTokens? directives false r).map ((kind, String.ofList t) :: ·) := by
  obtain ⟨c, w, rfl⟩ := h.exists_cons
  rw [List.cons_append, bareTokens?_token (h.lexeme rfl hk he), List.drop_left, List.take_left]

/-- A token that the rest goes on with is not read. -/
lemma bareTokens?_of_lexeme {kind kind' c w r n directives lineStart}
    (bs : List (TokenKind × String))
    (hl : lexeme directives lineStart c (w ++ r) = .ok ⟨.token kind', n⟩)
    (hn : ¬(kind' = kind ∧ n = w.length)) :
    bareTokens? directives lineStart (c :: w ++ r) ≠
      some ((kind, String.ofList (c :: w)) :: bs) := by
  rw [List.cons_append, bareTokens?_token hl]
  intro e
  obtain ⟨bs', -, e⟩ := Option.map_eq_some_iff.1 e
  obtain ⟨hhead, -⟩ := List.cons.inj e
  obtain ⟨hkind, htext⟩ := Prod.mk.inj hhead
  have hw := (List.cons.inj (String.ofList_injective htext)).2
  have hlen := congrArg List.length hw
  rw [List.length_take, Nat.min_eq_left (lexeme_spelling hl).1] at hlen
  exact hn ⟨hkind, hlen⟩

/-- A token ends before the next one, which follows without a space, unless it goes on with it or
is a number before a point and a digit. -/
lemma ends_of_glued {p c : Token × Role} {r} (hp : Placed p) (hc : Placed c)
    (hglue : spaceBetween p c = false) :
    Ends p.1.kind p.1.text.toList (c.1.text.toList ++ r) ↔
      runsOn p.1 c.1 = false ∧
        ¬(p.1.kind = .number ∧ c.1.is "." = true ∧ r.head?.any Char.isDigit = true) := by
  obtain ⟨x, w, hw⟩ := hc.spelling.exists_cons
  have hsign : p.1.kind ≠ .punctuator → c.1.kind = .punctuator ∧ c.1.text ∈ punctuators := by
    intro hk
    have hck := kind_of_glued hp hc hglue hk
    have hs := hc.spelling
    rw [hck] at hs
    exact ⟨hck, hs.of_punctuator⟩
  have hword : p.1.kind ≠ .punctuator → Text.continuesWord x = false := fun hk =>
    continuesWord_of_punctuator _ (hsign hk).2 x (by rw [hw]; rfl)
  unfold runsOn Ends
  rw [hw]
  cases hk : p.1.kind with
  | identifier | keyword => simpa using hword (by simp [hk])
  | string =>
    have := (punctuator_chars _ (hsign (by simp [hk])).2 x (by rw [hw]; rfl)).2.2.1
    simpa using this
  | character => simp
  | directive => exact absurd hk hp.notDirective
  | punctuator =>
    have hcomment : p.1.text.toList = ['/'] → ¬(x = '/' ∨ x = '*') := by
      intro ht hx
      have ht : p.1.text = "/" := by rw [← String.ofList_toList (s := p.1.text), ht]
      rw [spaceBetween_solidus hp hc hk ht hw hx] at hglue
      cases hglue
    have hdot : p.1.text = "." ↔ p.1.text.toList = ['.'] := by
      rw [← String.toList_inj]
      rfl
    refine ⟨fun h => ⟨?_, by simp⟩, fun h y hy => ?_⟩
    · obtain ⟨hmem, hpoint, -⟩ := h x rfl
      rw [← hdot] at hpoint
      simp only [List.head?_cons, Option.any_some, Bool.or_eq_false_iff, List.contains_eq_mem,
        decide_eq_false_iff_not, Bool.and_eq_false_imp, beq_iff_eq]
      exact ⟨hmem, fun ht => by simpa using fun hd => hpoint ⟨ht, hd⟩⟩
    · cases hy
      have h := h.1
      simp only [List.head?_cons, Option.any_some, Bool.or_eq_false_iff, List.contains_eq_mem,
        decide_eq_false_iff_not, Bool.and_eq_false_imp, beq_iff_eq] at h
      refine ⟨h.1, fun hpoint => ?_, fun hs => hcomment hs.1 hs.2⟩
      simpa [hpoint.2] using h.2 (hdot.2 hpoint.1)
  | number =>
    have hx := hword (by simp [hk])
    obtain ⟨hck, hct⟩ := hsign (by simp [hk])
    have hdot := (punctuator_chars _ hct x (by rw [hw]; rfl)).2.2.2.2.2.2.2.2.2
    have hpoint : (x == '.' && (w ++ r).head?.any Char.isDigit) =
        (c.1.is "." && r.head?.any Char.isDigit) := by
      have hdot' : c.1.is "." = (x :: w == ['.']) := by
        rw [Token.is, hck, ← hw]
        simp [Bool.beq_eq_decide_eq, ← String.toList_inj]
      rw [hdot']
      cases w with
      | nil => simp
      | cons y w =>
        rw [hw] at hdot
        by_cases hxd : x = '.'
        · simpa [hxd] using hdot hxd y rfl
        · simp [hxd]
    rw [List.cons_append, numberBody_cons, hx, hpoint]
    simp

/-- A token that goes on with the ones after it is not read back. -/
lemma bareTokens?_of_glued {p c : Token × Role} {r directives lineStart bs} (hp : Placed p)
    (hc : Placed c) (hglue : spaceBetween p c = false)
    (he : ¬Ends p.1.kind p.1.text.toList (c.1.text.toList ++ r)) :
    bareTokens? directives lineStart (p.1.text.toList ++ (c.1.text.toList ++ r)) ≠
      some (p.1.bare :: bs) := by
  obtain ⟨x, w, hw⟩ := hc.spelling.exists_cons
  obtain ⟨a, u, hu⟩ := hp.spelling.exists_cons
  have hk : p.1.kind = .punctuator ∨ p.1.kind = .number := by
    rw [ends_of_glued hp hc hglue] at he
    cases hk : p.1.kind <;> simp [runsOn, hk] at he ⊢
  have hcomment : a :: u = ['/'] → ∀ y ∈ (c.1.text.toList ++ r).head?, ¬(y = '/' ∨ y = '*') := by
    intro ht y hy hs
    rw [hw] at hy
    cases hy
    have hsolidus := hp.spelling
    rw [hu, ht] at hsolidus
    have ht : p.1.text = "/" := by rw [← String.ofList_toList (s := p.1.text), hu, ht]
    rw [spaceBetween_solidus hp hc (hsolidus.of_solidus (.inl rfl)).1 ht hw hs] at hglue
    cases hglue
  have hword : p.1.kind = .number →
      ∀ y ∈ (c.1.text.toList ++ r).head?, Text.continuesWord y = false := by
    intro hn y hy
    rw [hw] at hy
    cases hy
    have hs := hc.spelling
    rw [kind_of_glued hp hc hglue (by simp [hn])] at hs
    exact continuesWord_of_punctuator _ hs.of_punctuator _ (by rw [hw]; rfl)
  have hs := hp.spelling
  rw [hu] at hs he
  obtain ⟨kind', n, hl, hn⟩ := lexeme_of_not_ends directives lineStart hs he hk hcomment hword
  have hread := bareTokens?_of_lexeme bs hl hn
  rwa [← hu, String.ofList_toList] at hread

/-- A token that goes on with the ones after it takes part in a fusion. -/
lemma fuses_of_not_ends {p c : Token × Role} {ts} (hp : Placed p) (hc : Placed c)
    (hts : ∀ x ∈ ts, Placed x) (hglue : spaceBetween p c = false)
    (he : ¬Ends p.1.kind p.1.text.toList (c.1.text.toList ++ (joinAfter c ts).toList)) :
    fuses (p :: c :: ts) = true := by
  rw [ends_of_glued hp hc hglue, not_and_or, Bool.not_eq_false, not_not] at he
  rcases he with hrun | ⟨-, hpoint, hdigit⟩
  · simp [fuses, hglue, hrun]
  · -- the point of a number between two digits: it is the point that fuses, with the second
    cases ts with
    | nil => simp [joinAfter] at hdigit
    | cons d ts =>
      simp only [Token.is, Bool.and_eq_true, beq_iff_eq] at hpoint
      have hnext : spaceBetween c d = false := by
        simp [spaceBetween, hpoint.1, hpoint.2]
      obtain ⟨x, w, hw⟩ := (hts d (.head _)).spelling.exists_cons
      have hx : x.isDigit = true := by
        simpa [joinAfter, hnext, hw] using hdigit
      have hrun : runsOn c.1 d.1 = true := by
        simp [runsOn, hpoint.1, hpoint.2, hw, hx]
      simp [fuses, hnext, hrun]

/-- Two tokens with a space between are joined with it. -/
lemma toList_joinRoles_spaced {p c : Token × Role} {ts} (h : spaceBetween p c = true) :
    (joinRoles (p :: c :: ts)).toList =
      p.1.text.toList ++ ' ' :: (joinRoles (c :: ts)).toList := by
  simp [joinRoles, joinAfter, h]

/-- Two tokens without a space between are joined without it. -/
lemma toList_joinRoles_glued {p c : Token × Role} {ts} (h : spaceBetween p c = false) :
    (joinRoles (p :: c :: ts)).toList = p.1.text.toList ++ (joinRoles (c :: ts)).toList := by
  simp [joinRoles, joinAfter, h]

/-- The text of tokens reads back as these tokens just if no two of them fuse. -/
theorem bareTokens?_joinRoles {directives lineStart} {ts : List (Token × Role)}
    (h : ∀ x ∈ ts, Placed x) :
    bareTokens? directives lineStart (joinRoles ts).toList = some (ts.map fun x => x.1.bare) ↔
      fuses ts = false := by
  induction ts generalizing lineStart with
  | nil => simp [joinRoles, fuses]
  | cons p ts ih =>
    have hp : Placed p := h p (.head _)
    cases ts with
    | nil =>
      have hread : bareTokens? directives lineStart (p.1.text.toList ++ []) = _ :=
        bareTokens?_of_ends hp.spelling hp.notDirective Ends.nil
      rw [List.append_nil] at hread
      simp [joinRoles, joinAfter, fuses, hread, Token.bare]
    | cons c ts =>
      have hc : Placed c := h c (.tail _ (.head _))
      have ih : bareTokens? directives false _ = _ ↔ _ := ih fun x hx => h x (.tail _ hx)
      have hbare : (p.1.kind, String.ofList p.1.text.toList) = p.1.bare := by
        rw [String.ofList_toList, Token.bare]
      -- whatever stands between, the tokens survive if the first ends and the others survive
      have step : ∀ r, Ends p.1.kind p.1.text.toList r →
          bareTokens? directives false r =
            bareTokens? directives false (joinRoles (c :: ts)).toList →
          (bareTokens? directives lineStart (p.1.text.toList ++ r) =
            some ((p :: c :: ts).map fun x => x.1.bare) ↔ fuses (c :: ts) = false) := by
        intro r he hr
        rw [bareTokens?_of_ends hp.spelling hp.notDirective he, hr, hbare, ← ih, List.map_cons]
        cases bareTokens? directives false (joinRoles (c :: ts)).toList <;> simp
      cases hglue : spaceBetween p c with
      | true =>
        have hblank : Text.isBlank ' ' = true := by decide
        rw [toList_joinRoles_spaced hglue,
          step _ (.blank hblank hp.notDirective) (bareTokens?_isBlank hblank)]
        simp [fuses, hglue]
      | false =>
        have hrest : (joinRoles (c :: ts)).toList =
            c.1.text.toList ++ (joinAfter c ts).toList := by
          simp [joinRoles]
        rw [toList_joinRoles_glued hglue]
        by_cases he : Ends p.1.kind p.1.text.toList (joinRoles (c :: ts)).toList
        · have hrun := he
          rw [hrest, ends_of_glued hp hc hglue] at hrun
          rw [step _ he rfl]
          simp [fuses, hglue, hrun.1]
        · rw [hrest] at he ⊢
          have hfuses := fuses_of_not_ends hp hc (fun x hx => h x (.tail _ (.tail _ hx))) hglue he
          exact iff_of_false (bareTokens?_of_glued hp hc hglue he) (by simp [hfuses])

/-- A text has the given tokens, apart from where they stand. -/
def HasTokens (text : String) (ts : List Token) : Prop :=
  ∃ us, tokenize false text = .ok us ∧ us.map Token.bare = ts.map Token.bare

/-- The text of tokens of a fragment has these tokens just if no two of them fuse. -/
lemma hasTokens_joinTokens_iff {ts}
    (h : ∀ t ∈ ts, Spelling t.kind t.text.toList ∧ t.kind ≠ .directive) :
    HasTokens (joinTokens ts) ts ↔ fuses (roles ts) = false := by
  have hbare : (roles ts).map (fun x => x.1.bare) = ts.map Token.bare := by
    have hmap := congrArg (List.map Token.bare) (map_fst_roles : (roles ts).map Prod.fst = ts)
    rwa [List.map_map] at hmap
  rw [HasTokens, tokenize_bare_iff, joinTokens, ← hbare]
  exact bareTokens?_joinRoles (placed_of_mem_roles h)

/-- The tokens of a statement are some of those it is read from. -/
lemma mem_of_holdsOnly {used ts} (h : Statement.HoldsOnly used ts) : ∀ t ∈ used, t ∈ ts := by
  intro t ht
  rcases h with rfl | ⟨_, rfl, -⟩
  · exact ht
  · exact List.mem_append_left _ ht

/-- The tokens of a statement are balanced when those it is read from are. -/
lemma balanced_of_holdsOnly {used ts} (h : Statement.HoldsOnly used ts) (hb : Balanced ts) :
    Balanced used := by
  rcases h with rfl | ⟨t, rfl, ht, -⟩
  · exact hb
  · simp only [Token.is, Bool.and_eq_true, beq_iff_eq] at ht
    have ho : t.opens = false := by simp [Token.opens, Token.is, ht]
    have hc : t.closes = false := by simp [Token.closes, Token.closes?, Token.is, ht]
    rw [balanced_iff_waiting?] at hb ⊢
    rw [waiting?_append, Option.bind_eq_some_iff] at hb
    obtain ⟨stack, hused, hstack⟩ := hb
    rw [waiting?_cons, nest?_token ho hc] at hstack
    cases hstack
    exact hused

/-- What an expression is read from. -/
lemma tokenize_of_parse {text e} (h : Expression.parse text = .ok e) :
    ∃ ts, tokenize false text = .ok ts ∧ ts ≠ [] ∧ Balanced ts ∧ e.text = joinTokens ts := by
  unfold Expression.parse at h
  split at h
  case h_1 => cases h
  case h_2 ts hts =>
    split at h
    case h_1 => cases h
    case h_2 hfault =>
      cases h
      obtain ⟨ht, hb⟩ := Statement.balancedTokens_eq_ok_iff.1 hts
      refine ⟨ts, ht, ?_, hb, rfl⟩
      rintro rfl
      cases hfault

/-- The text of a statement or expression has the tokens it was read from just if no two of them
fuse; a statement loses a `;` after its last brace before. -/
theorem tokens_survive_iff (text : String) :
    (∀ s, Statement.parse text = .ok s →
      ∃ ts used, tokenize false text = .ok ts ∧ Statement.HoldsOnly used ts ∧
        s.text = joinTokens used ∧ (HasTokens s.text used ↔ fuses (roles used) = false)) ∧
    (∀ e, Expression.parse text = .ok e →
      ∃ ts, tokenize false text = .ok ts ∧ e.text = joinTokens ts ∧
        (HasTokens e.text ts ↔ fuses (roles ts) = false)) := by
  constructor
  · intro s h
    obtain ⟨ts, used, htokens, -, -, hholds, rfl⟩ := Statement.parse_eq_ok_iff.1 h
    refine ⟨ts, used, htokens, hholds, rfl, hasTokens_joinTokens_iff fun t ht => ?_⟩
    exact spelling_of_mem_tokensFrom htokens t (mem_of_holdsOnly hholds t ht)
  · intro e h
    obtain ⟨ts, htokens, -, -, he⟩ := tokenize_of_parse h
    refine ⟨ts, htokens, he, ?_⟩
    rw [he]
    exact hasTokens_joinTokens_iff (spelling_of_mem_tokensFrom htokens)

/-- The signs of `a - - - b` fuse, those of `x = - y;` do not. -/
theorem tokens_survive_signs :
    (∃ ts, tokenize false "a - - - b" = .ok ts ∧ "a - --b" = joinTokens ts ∧
      (HasTokens "a - --b" ts ↔ fuses (roles ts) = false)) ∧
    (∃ ts used, tokenize false "x = - y;" = .ok ts ∧ Statement.HoldsOnly used ts ∧
      "x = -y;" = joinTokens used ∧ (HasTokens "x = -y;" used ↔ fuses (roles used) = false)) :=
  ⟨(tokens_survive_iff "a - - - b").2 ⟨"a - --b"⟩ (by decide +kernel),
    (tokens_survive_iff "x = - y;").1 ⟨.simple, "x = -y;"⟩ (by decide +kernel)⟩

/-- Not every expression keeps its tokens: two prefix signs become one. -/
theorem tokens_fuse :
    ¬∀ text e ts, Expression.parse text = .ok e → tokenize false text = .ok ts →
      HasTokens e.text ts := by
  intro h
  obtain ⟨ts, hts⟩ : ∃ ts, tokenize false "a - - - b" = .ok ts := ⟨_, rfl⟩
  have hkept := h "a - - - b" ⟨"a - --b"⟩ ts (by decide +kernel) hts
  rw [HasTokens, tokenize_bare_iff] at hkept
  have hread : bareTokens? false true "a - - - b".toList = some (ts.map Token.bare) :=
    tokenize_bare_iff.1 ⟨ts, hts, rfl⟩
  rw [← hread] at hkept
  exact absurd hkept (by decide +kernel)

end SharpSmith.Fragment
