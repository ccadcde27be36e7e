import Mathlib.Data.List.Find
import SharpSmith.Proofs.Literals
import SharpSmith.Proofs.Reading

/-!
# What tokens look like

A token is read as far as it goes and no further, so its text alone says what kind of token it is,
and a text that starts with it is read as that token unless the rest goes on with it. `Spelling`
lists the texts of the tokens of each kind, `Ends` says which rests end them: `lexeme_spelling` and
`Spelling.lexeme` are the two directions.
-/

namespace SharpSmith.Fragment

/-- The kind of a word: reserved or not. -/
def wordKind (w : List Char) : TokenKind :=
  if Identifier.isKeyword (String.ofList w) then .keyword else .identifier

/-- Whether a number that goes on with `w` after `c` is hexadecimal. -/
def isHex (c : Char) (w : List Char) : Bool :=
  c == '0' && (w.head? == some 'x' || w.head? == some 'X')

/-- The texts of the tokens of each kind. -/
inductive Spelling : TokenKind → List Char → Prop where
  | word {c w} :
    Text.startsWord c = true →
    (∀ x ∈ w, Text.continuesWord x = true) →
    Spelling (wordKind (c :: w)) (c :: w)
  | escaped {c w} :
    Text.startsWord c = true →
    (∀ x ∈ w, Text.continuesWord x = true) →
    Spelling .identifier ('@' :: c :: w)
  | number {c w} :
    (c.isDigit = true ∨ c = '.' ∧ w.head?.any Char.isDigit = true) →
    numberBody (isHex c w) c w = w.length →
    Spelling .number (c :: w)
  | quoted {lead body} :
    lead = [] ∨ lead = ['$'] →
    stringLexeme 0 body = .ok ⟨.token .string, body.length⟩ →
    Spelling .string (lead ++ '"' :: body)
  | verbatim {lead body} :
    lead = ['@'] ∨ lead = ['$', '@'] ∨ lead = ['@', '$'] →
    verbatimBody body = (body.length, true) →
    Spelling .string (lead ++ '"' :: body)
  | character {body} :
    characterBody false body = (body.length, true) →
    Spelling .character ('\'' :: body)
  | punctuator {p} :
    p ∈ punctuators →
    Spelling .punctuator p.toList
  | directive {w} :
    (∀ x ∈ w, x ≠ '\n') →
    Spelling .directive ('#' :: w)

/-- The rest `r` does not go on with the token `t` of the given kind. -/
def Ends (kind : TokenKind) (t r : List Char) : Prop :=
  match kind with
  | .identifier | .keyword => ∀ x ∈ r.head?, Text.continuesWord x = false
  | .number => numberBody (isHex (t.headD ' ') t.tail) (t.getLastD ' ') r = 0
  | .string => r.head? ≠ some '"'
  | .character => True
  | .punctuator => ∀ x ∈ r.head?,
      String.ofList (t ++ [x]) ∉ punctuators ∧ ¬(t = ['.'] ∧ x.isDigit = true) ∧
        ¬(t = ['/'] ∧ (x = '/' ∨ x = '*'))
  | .directive => ∀ x ∈ r.head?, x = '\n'

/-- The end of a text ends every token. -/
lemma Ends.nil {kind t} : Ends kind t [] := by
  cases kind <;> simp [Ends, numberBody]

/-- Reading a word takes the characters that go on with it. -/
lemma wordLexeme_append {c w r} (hw : ∀ x ∈ w, Text.continuesWord x = true)
    (hr : ∀ x ∈ r.head?, Text.continuesWord x = false) :
    wordLexeme c (w ++ r) = ⟨.token (wordKind (c :: w)), w.length⟩ := by
  unfold wordLexeme wordKind
  rw [Text.takeWhile_append_stop hw hr]

/-- What follows a number does not make it hexadecimal. -/
lemma isHex_append {c w r} (hr : ∀ x ∈ r.head?, Text.continuesWord x = false) :
    isHex c (w ++ r) = isHex c w := by
  cases w with
  | cons => rfl
  | nil =>
    cases r with
    | nil => rfl
    | cons x r =>
      have hX : ∀ y, Text.continuesWord y = true → x ≠ y := by
        rintro y hy rfl
        rw [hr x rfl] at hy
        cases hy
      simp [isHex, hX 'x' (by decide), hX 'X' (by decide)]

/-- A punctuator starts with a character that starts nothing else, and no comment or number
starts inside of one. -/
lemma punctuator_chars : ∀ p ∈ punctuators, ∀ c ∈ p.toList.head?,
    Text.isBlank c = false ∧ c ≠ '#' ∧ c ≠ '"' ∧ c ≠ '@' ∧ c ≠ '$' ∧ c ≠ '\'' ∧
      c.isDigit = false ∧ Text.startsWord c = false ∧
      (c = '/' → ∀ x ∈ p.toList.tail.head?, x ≠ '/' ∧ x ≠ '*') ∧
      (c = '.' → ∀ x ∈ p.toList.tail.head?, x.isDigit = false) := by
  have table : ∀ p ∈ punctuators, p.toList.head?.all (fun c =>
      !Text.isBlank c && c != '#' && c != '"' && c != '@' && c != '$' && c != '\'' &&
        !c.isDigit && !Text.startsWord c &&
        (c != '/' || p.toList.tail.head?.all fun x => x != '/' && x != '*') &&
        (c != '.' || p.toList.tail.head?.all fun x => !x.isDigit)) = true := by
    decide +kernel
  intro p hp c hc
  have h := table p hp
  rw [Option.mem_def.1 hc] at h
  cases hx : p.toList.tail.head? <;> simp_all [or_iff_not_imp_left]

/-- No punctuator is empty. -/
lemma punctuator_ne_nil : ∀ p ∈ punctuators, p.toList ≠ [] := by
  decide +kernel

/-- A punctuator is found by its own text. -/
lemma find?_punctuator : ∀ p ∈ punctuators,
    punctuators.find? (fun q => q.toList.isPrefixOf p.toList) = some p := by
  decide +kernel

/-- A punctuator that starts with another starts with one that is longer by a character. -/
lemma punctuator_take : ∀ p ∈ punctuators, ∀ q ∈ punctuators, p.toList.isPrefixOf q.toList →
    p = q ∨ String.ofList (q.toList.take (p.length + 1)) ∈ punctuators := by
  decide +kernel

/-- A text that starts with a punctuator is read as that, unless the rest goes on with it. -/
lemma punctuatorLexeme_append {p c w r} (hp : p ∈ punctuators) (e : p.toList = c :: w)
    (hr : ∀ x ∈ r.head?, String.ofList (p.toList ++ [x]) ∉ punctuators) :
    punctuatorLexeme c (w ++ r) = .ok ⟨.token .punctuator, w.length⟩ := by
  have same : ∀ q ∈ punctuators,
      q.toList.isPrefixOf (p.toList ++ r) = q.toList.isPrefixOf p.toList := by
    intro q hq
    rw [Bool.eq_iff_iff, List.isPrefixOf_iff_prefix, List.isPrefixOf_iff_prefix]
    refine ⟨fun h => ?_, fun h => h.trans (List.prefix_append _ _)⟩
    rcases Nat.lt_or_ge p.toList.length q.toList.length with hlt | hge
    · cases r with
      | nil => simpa using h
      | cons x r =>
        -- the longer punctuator starts with `p` and the first character of the rest
        have hx : (p.toList ++ [x]) <+: q.toList := by
          have hlong : (p.toList ++ [x]) <+: p.toList ++ x :: r := ⟨r, by simp⟩
          refine List.prefix_of_prefix_length_le hlong h ?_
          rw [List.length_append]
          exact hlt
        have hpq := (List.prefix_append p.toList [x]).trans hx
        rcases punctuator_take p hp q hq (List.isPrefixOf_iff_prefix.2 hpq) with e | hmem
        · rw [e] at hlt
          exact absurd hlt (Nat.lt_irrefl _)
        · rw [List.prefix_iff_eq_take] at hx
          refine absurd ?_ (hr x rfl)
          rw [hx, List.length_append, List.length_singleton, String.length_toList]
          exact hmem
    · exact List.prefix_of_prefix_length_le h (List.prefix_append _ _) hge
  unfold punctuatorLexeme
  rw [← List.cons_append, ← e, List.find?_congr same, find?_punctuator p hp]
  have : p.length = w.length + 1 := by
    rw [← String.length_toList, e, List.length_cons]
  simp [this]

/-- A word starts at its first character. -/
lemma lexeme_of_startsWord {directives lineStart c cs} (h : Text.startsWord c = true) :
    lexeme directives lineStart c cs = .ok (wordLexeme c cs) := by
  have hne : ∀ x, Text.startsWord x = false → c ≠ x := by
    rintro x hx rfl
    rw [h] at hx
    cases hx
  have hd : c.isDigit = false := by
    cases e : c.isDigit with
    | false => rfl
    | true => rw [Text.startsWord_of_isDigit e] at h; cases h
  simp [lexeme, Text.isBlank_of_startsWord h, h, hd, hne '/' (by decide),
    hne '#' (by decide), hne '"' (by decide), hne '@' (by decide),
    hne '$' (by decide), hne '\'' (by decide), hne '.' (by decide)]

/-- A number starts with a digit, or with a point before one. -/
lemma lexeme_of_number {directives lineStart c cs}
    (h : c.isDigit = true ∨ c = '.' ∧ cs.head?.any Char.isDigit = true) :
    lexeme directives lineStart c cs = .ok (numberLexeme c cs) := by
  rcases h with h | ⟨rfl, h⟩
  · have hne : ∀ x : Char, x.isDigit = false → c ≠ x := by
      rintro x hx rfl
      rw [h] at hx
      cases hx
    simp [lexeme, Text.isBlank_of_continuesWord (Text.continuesWord_of_isDigit h), h,
      hne '/' (by decide), hne '#' (by decide), hne '"' (by decide), hne '@' (by decide),
      hne '$' (by decide), hne '\'' (by decide)]
  · have hb : Text.isBlank '.' = false := by decide
    have hd : Char.isDigit '.' = false := by decide
    simp [lexeme, h, hb, hd]

/-- A character that starts no comment, directive, string or escaped word starts a number, a word
or a punctuator. -/
lemma lexeme_of_plain {directives lineStart c cs} (hb : Text.isBlank c = false)
    (h1 : c ≠ '#') (h2 : c ≠ '"') (h3 : c ≠ '@') (h4 : c ≠ '$') (h5 : c ≠ '\'')
    (hcomment : c = '/' → ∀ x ∈ cs.head?, x ≠ '/' ∧ x ≠ '*') :
    lexeme directives lineStart c cs =
      if c.isDigit then .ok (numberLexeme c cs)
      else if c = '.' && cs.head?.any Char.isDigit then .ok (numberLexeme c cs)
      else if Text.startsWord c then .ok (wordLexeme c cs)
      else punctuatorLexeme c cs := by
  have hline : ¬(decide (c = '/') && cs.head? == some '/') = true := by
    simp only [Bool.and_eq_true, decide_eq_true_eq, beq_iff_eq]
    exact fun h => (hcomment h.1 '/' h.2).1 rfl
  have hblock : ¬(decide (c = '/') && cs.head? == some '*') = true := by
    simp only [Bool.and_eq_true, decide_eq_true_eq, beq_iff_eq]
    exact fun h => (hcomment h.1 '*' h.2).2 rfl
  rw [lexeme, if_neg (by simp [hb]), if_neg hline, if_neg hblock, if_neg h1, if_neg h2,
    if_neg (by simp [h3, h4]), if_neg h5]

/-- A character that starts nothing else starts a punctuator, if anything. -/
lemma lexeme_of_sign {directives lineStart c cs} (hb : Text.isBlank c = false)
    (h1 : c ≠ '#') (h2 : c ≠ '"') (h3 : c ≠ '@') (h4 : c ≠ '$') (h5 : c ≠ '\'')
    (hd : c.isDigit = false) (hs : Text.startsWord c = false)
    (hcomment : c = '/' → ∀ x ∈ cs.head?, x ≠ '/' ∧ x ≠ '*')
    (hpoint : c = '.' → cs.head?.any Char.isDigit = false) :
    lexeme directives lineStart c cs = punctuatorLexeme c cs := by
  have hnumber : ¬(decide (c = '.') && cs.head?.any Char.isDigit) = true := by
    simp only [Bool.and_eq_true, decide_eq_true_eq]
    exact fun h => absurd h.2 (by simp [hpoint h.1])
  rw [lexeme_of_plain hb h1 h2 h3 h4 h5 hcomment, if_neg (by simp [hd]), if_neg hnumber,
    if_neg (by simp [hs])]

/-- A quote starts a string. -/
lemma lexeme_quote {directives lineStart cs} :
    lexeme directives lineStart '"' cs = stringLexeme 0 cs := by
  have hb : Text.isBlank '"' = false := by decide
  simp [lexeme, hb]

/-- A mark starts a string or an escaped word. -/
lemma lexeme_marked {directives lineStart c cs} (h : c = '@' ∨ c = '$') :
    lexeme directives lineStart c cs = markedLexeme c cs := by
  have hb : Text.isBlank '@' = false := by decide
  have hb' : Text.isBlank '$' = false := by decide
  rcases h with rfl | rfl <;> simp [lexeme, hb, hb']

/-- An escaped word is read as far as a word goes. -/
lemma markedLexeme_word {c cs} (h : Text.startsWord c = true) :
    markedLexeme '@' (c :: cs) =
      .ok ⟨.token .identifier, ((c :: cs).takeWhile Text.continuesWord).length⟩ := by
  have hq : c ≠ '"' := by rintro rfl; exact absurd h (by decide)
  have hd : c ≠ '$' := by rintro rfl; exact absurd h (by decide)
  cases cs with
  | nil => simp [markedLexeme, h, Text.continuesWord_of_startsWord h]
  | cons e cs =>
    unfold markedLexeme
    split
    case h_1 heq => exact absurd (List.cons.inj heq).1 hq
    case h_2 heq =>
      cases heq
      simp [h, hd]
    case h_3 heq => cases heq
    case h_4 heq => cases heq

/-- A string is read whole when no quote follows it. -/
lemma stringLexeme_append {lead body r}
    (h : stringLexeme 0 body = .ok ⟨.token .string, body.length⟩) (hr : r.head? ≠ some '"') :
    stringLexeme lead (body ++ r) = .ok ⟨.token .string, lead + body.length⟩ := by
  obtain ⟨n, _, _, hn, -, happ⟩ := stringLexeme_take h
  rw [Nat.zero_add] at hn
  subst hn
  simpa using happ lead r fun _ => hr

/-- A verbatim string is read whole when no quote follows it. -/
lemma verbatimLexeme_append {lead body r} (h : verbatimBody body = (body.length, true))
    (hr : r.head? ≠ some '"') :
    verbatimLexeme lead (body ++ r) = .ok ⟨.token .string, lead + body.length⟩ := by
  have happ := (verbatimBody_take h).2 r hr
  rw [List.take_length] at happ
  rw [verbatimLexeme, happ]

/-- What starts a string, and what follows that, are read as a string. -/
lemma lexeme_quoted {lead body c w r directives lineStart} (hl : lead = [] ∨ lead = ['$'])
    (e : lead ++ '"' :: body = c :: w) :
    lexeme directives lineStart c (w ++ r) = stringLexeme lead.length (body ++ r) ∧
      w.length = lead.length + body.length := by
  have hlength := congrArg List.length e
  rw [List.length_append, List.length_cons, List.length_cons] at hlength
  refine ⟨?_, by omega⟩
  rcases hl with rfl | rfl <;> cases e
  · exact lexeme_quote
  · exact lexeme_marked (.inr rfl)

/-- What starts a verbatim string, and what follows that, are read as a verbatim string. -/
lemma lexeme_verbatim {lead body c w r directives lineStart}
    (hl : lead = ['@'] ∨ lead = ['$', '@'] ∨ lead = ['@', '$'])
    (e : lead ++ '"' :: body = c :: w) :
    lexeme directives lineStart c (w ++ r) = verbatimLexeme lead.length (body ++ r) ∧
      w.length = lead.length + body.length := by
  have hlength := congrArg List.length e
  rw [List.length_append, List.length_cons, List.length_cons] at hlength
  refine ⟨?_, by omega⟩
  rcases hl with rfl | rfl | rfl <;> cases e
  · exact lexeme_marked (.inl rfl)
  · exact lexeme_marked (.inr rfl)
  · exact lexeme_marked (.inl rfl)

/-- A number is still the start of one when something follows it. -/
lemma startsNumber_append {c : Char} {w r : List Char}
    (h : c.isDigit = true ∨ c = '.' ∧ w.head?.any Char.isDigit = true) :
    c.isDigit = true ∨ c = '.' ∧ (w ++ r).head?.any Char.isDigit = true := by
  refine h.imp id fun h => ⟨h.1, ?_⟩
  cases w with
  | nil => simp at h
  | cons x w => exact h.2

/-- A number is read whole when the rest does not go on with it. -/
lemma lexeme_number {c w r directives lineStart}
    (hc : c.isDigit = true ∨ c = '.' ∧ w.head?.any Char.isDigit = true)
    (hw : numberBody (isHex c w) c w = w.length) (he : Ends .number (c :: w) r) :
    lexeme directives lineStart c (w ++ r) = .ok ⟨.token .number, w.length⟩ := by
  have hlast : (c :: w).getLastD ' ' = w.getLastD c := List.getLastD_cons ..
  have he : numberBody (isHex c w) ((c :: w).getLastD ' ') r = 0 := he
  rw [hlast] at he
  have hx := isHex_append (c := c) (w := w) (continuesWord_of_numberBody he)
  rw [lexeme_of_number (startsNumber_append hc)]
  show Except.ok (⟨.token .number, numberBody (isHex c (w ++ r)) c (w ++ r)⟩ : Lexeme) = _
  rw [hx, numberBody_append hw, he, Nat.add_zero]

/-- A punctuator is read whole when the rest does not go on with it. -/
lemma lexeme_punctuator {p c w r directives lineStart} (hp : p ∈ punctuators)
    (e : p.toList = c :: w) (he : Ends .punctuator p.toList r) :
    lexeme directives lineStart c (w ++ r) = .ok ⟨.token .punctuator, w.length⟩ := by
  obtain ⟨hb, h1, h2, h3, h4, h5, hd, hs, hslash, hdot⟩ :=
    punctuator_chars p hp c (by rw [e]; rfl)
  rw [← punctuatorLexeme_append hp e fun x hx => (he x hx).1]
  -- neither a comment nor a number starts here, inside of the punctuator or across its end
  refine lexeme_of_sign hb h1 h2 h3 h4 h5 hd hs (fun hc x hx => ?_) fun hc => ?_
  · cases w with
    | nil =>
      have := (he x hx).2.2
      rw [e, hc] at this
      simpa using this
    | cons y w => exact hslash hc x (by rw [e]; exact hx)
  · rw [Option.any_eq_false]
    intro x hx
    cases w with
    | nil =>
      have := (he x hx).2.1
      rw [e, hc] at this
      simpa using this
    | cons y w => simpa using hdot hc x (by rw [e]; exact hx)

/-- A token is read whole when the rest does not go on with it. -/
theorem Spelling.lexeme {kind t c w r directives lineStart} (h : Spelling kind t)
    (e : t = c :: w) (hk : kind ≠ .directive) (he : Ends kind t r) :
    lexeme directives lineStart c (w ++ r) = .ok ⟨.token kind, w.length⟩ := by
  cases h with
  | @word c' w' hc hw =>
    cases e
    have hr : ∀ x ∈ r.head?, Text.continuesWord x = false := by
      unfold wordKind at he
      split at he <;> exact he
    rw [lexeme_of_startsWord hc, wordLexeme_append hw hr]
  | @escaped c' w' hc hw =>
    cases e
    have hw' : ∀ x ∈ c' :: w', Text.continuesWord x = true :=
      List.forall_mem_cons.2 ⟨Text.continuesWord_of_startsWord hc, hw⟩
    rw [lexeme_marked (.inl rfl), List.cons_append, markedLexeme_word hc, ← List.cons_append,
      Text.takeWhile_append_stop hw' he]
  | number hc hw =>
    cases e
    exact lexeme_number hc hw he
  | quoted hl hb =>
    obtain ⟨hread, hlength⟩ := lexeme_quoted hl e
    rw [hread, hlength]
    exact stringLexeme_append hb he
  | verbatim hl hb =>
    obtain ⟨hread, hlength⟩ := lexeme_verbatim hl e
    rw [hread, hlength]
    exact verbatimLexeme_append hb he
  | @character body hb =>
    cases e
    have hq : Text.isBlank '\'' = false := by decide
    have happ := (characterBody_take hb).2 r
    rw [List.take_length] at happ
    simp [SharpSmith.Fragment.lexeme, hq, happ]
  | punctuator hp => exact lexeme_punctuator hp e he
  | directive => exact absurd rfl hk

/-- A word that is read has the spelling of one. -/
lemma wordLexeme_spelling {c cs kind n} (hc : Text.startsWord c = true)
    (h : wordLexeme c cs = ⟨.token kind, n⟩) : n ≤ cs.length ∧ Spelling kind (c :: cs.take n) := by
  obtain ⟨w, r, rfl, hw, hr⟩ := Text.exists_takeWhile_split Text.continuesWord cs
  rw [wordLexeme_append hw hr] at h
  cases h
  rw [List.take_left]
  exact ⟨by simp, .word hc hw⟩

/-- A number that is read has the spelling of one. -/
lemma numberLexeme_spelling {c cs kind n}
    (hc : c.isDigit = true ∨ c = '.' ∧ cs.head?.any Char.isDigit = true)
    (h : numberLexeme c cs = ⟨.token kind, n⟩) :
    n ≤ cs.length ∧ Spelling kind (c :: cs.take n) := by
  rw [show numberLexeme c cs = ⟨.token .number, numberBody (isHex c cs) c cs⟩ from rfl] at h
  cases h
  refine ⟨numberBody_le, .number (hc.imp id fun h => ⟨h.1, head?_take_numberBody h.2⟩) ?_⟩
  have hhex : isHex c (cs.take (numberBody (isHex c cs) c cs)) = isHex c cs := by
    conv_rhs => rw [← List.take_append_drop (numberBody (isHex c cs) c cs) cs]
    exact (isHex_append numberBody_stops).symm
  rw [hhex, numberBody_take, List.length_take, Nat.min_eq_left numberBody_le]

/-- A punctuator that is read is one of the list. -/
lemma punctuatorLexeme_spelling {c cs kind n}
    (h : punctuatorLexeme c cs = .ok ⟨.token kind, n⟩) :
    n ≤ cs.length ∧ Spelling kind (c :: cs.take n) := by
  unfold punctuatorLexeme at h
  split at h
  case h_2 => cases h
  case h_1 p hp =>
    cases h
    have hmem := List.mem_of_find?_eq_some hp
    have hpre := List.find?_some hp
    obtain ⟨t, ht⟩ := List.isPrefixOf_iff_prefix.1 hpre
    cases e : p.toList with
    | nil => exact absurd e (punctuator_ne_nil p hmem)
    | cons c' w =>
      rw [e] at ht
      obtain ⟨rfl, rfl⟩ := List.cons.inj ht
      have hlen : p.length - 1 = w.length := by
        rw [← String.length_toList, e, List.length_cons, Nat.add_sub_cancel]
      rw [hlen]
      refine ⟨by simp, ?_⟩
      have htake : (w.append t).take w.length = w := List.take_left
      rw [htake, ← e]
      exact .punctuator hmem

/-- A string that is read has the spelling of one. -/
lemma stringLexeme_spelling {cs kind n} (lead : List Char) (hl : lead = [] ∨ lead = ['$'])
    (h : stringLexeme lead.length cs = .ok ⟨.token kind, n⟩) :
    ∃ m, m ≤ cs.length ∧ n = lead.length + m ∧ Spelling kind (lead ++ '"' :: cs.take m) := by
  obtain ⟨m, hle, hs, hn, -, happ⟩ := stringLexeme_take h
  cases hs
  refine ⟨m, hle, hn, .quoted hl ?_⟩
  have := happ 0 [] (by simp)
  rw [List.append_nil, Nat.zero_add] at this
  rw [this, List.length_take, Nat.min_eq_left hle]

/-- A verbatim string that is read has the spelling of one. -/
lemma verbatimLexeme_spelling {cs kind n} (lead : List Char)
    (hl : lead = ['@'] ∨ lead = ['$', '@'] ∨ lead = ['@', '$'])
    (h : verbatimLexeme lead.length cs = .ok ⟨.token kind, n⟩) :
    ∃ m, m ≤ cs.length ∧ n = lead.length + m ∧ Spelling kind (lead ++ '"' :: cs.take m) := by
  unfold verbatimLexeme at h
  split at h
  case h_2 => cases h
  case h_1 m e =>
    cases h
    obtain ⟨hle, happ⟩ := verbatimBody_take e
    refine ⟨m, hle, rfl, .verbatim hl ?_⟩
    have := happ [] (by simp)
    rw [List.append_nil] at this
    rw [this, List.length_take, Nat.min_eq_left hle]

/-- An escaped word that is read has the spelling of one. -/
lemma escaped_spelling {d cs kind n} (hd : Text.startsWord d = true)
    (h : (.ok ⟨.token .identifier, ((d :: cs).takeWhile Text.continuesWord).length⟩ :
      Except Stuck Lexeme) = .ok ⟨.token kind, n⟩) :
    n ≤ (d :: cs).length ∧ Spelling kind ('@' :: (d :: cs).take n) := by
  obtain ⟨w, r, rfl, hw, hr⟩ := Text.exists_takeWhile_split Text.continuesWord cs
  rw [List.takeWhile_cons_of_pos (Text.continuesWord_of_startsWord hd),
    Text.takeWhile_append_stop hw hr] at h
  cases h
  rw [List.length_cons, List.take_succ_cons, List.take_left]
  exact ⟨by simp, .escaped hd hw⟩

/-- A marked string or word that is read has the spelling of one. -/
lemma markedLexeme_spelling {c cs kind n} (hc : c = '@' ∨ c = '$')
    (h : markedLexeme c cs = .ok ⟨.token kind, n⟩) :
    n ≤ cs.length ∧ Spelling kind (c :: cs.take n) := by
  unfold markedLexeme at h
  split at h
  case h_1 cs =>
    split at h
    case isTrue hm =>
      subst hm
      obtain ⟨m, hle, rfl, hs⟩ := verbatimLexeme_spelling ['@'] (by simp) h
      simp only [List.length_singleton, Nat.add_comm 1 m]
      exact ⟨Nat.succ_le_succ hle, hs⟩
    case isFalse hm =>
      have hc' := hc.resolve_left hm
      subst hc'
      obtain ⟨m, hle, rfl, hs⟩ := stringLexeme_spelling ['$'] (by simp) h
      simp only [List.length_singleton, Nat.add_comm 1 m]
      exact ⟨Nat.succ_le_succ hle, hs⟩
  case h_2 d e rest _ =>
    split at h
    case isTrue hm =>
      have hl : e = '"' ∧ ([c, d] = ['@'] ∨ [c, d] = ['$', '@'] ∨ [c, d] = ['@', '$']) := by
        simpa using hm
      obtain ⟨rfl, hl⟩ := hl
      obtain ⟨m, hle, rfl, hs⟩ := verbatimLexeme_spelling [c, d] hl h
      simp only [List.length_cons, List.length_nil, Nat.zero_add, Nat.add_comm 2 m]
      exact ⟨Nat.succ_le_succ (Nat.succ_le_succ hle), hs⟩
    case isFalse hm =>
      split at h
      case isFalse => cases h
      case isTrue hw =>
        simp only [Bool.and_eq_true, decide_eq_true_eq] at hw
        obtain ⟨rfl, hw⟩ := hw
        exact escaped_spelling hw h
  case h_3 d _ =>
    split at h
    case isFalse => cases h
    case isTrue hw =>
      simp only [Bool.and_eq_true, decide_eq_true_eq] at hw
      obtain ⟨rfl, hw⟩ := hw
      cases h
      exact ⟨Nat.le_refl _, .escaped hw (by simp)⟩
  case h_4 => cases h

/-- The ways in which a lexeme is read that starts with `c` and goes on in `cs`. -/
inductive Recognized (directives lineStart : Bool) (c : Char) (cs : List Char) : Lexeme → Prop where
  | blank :
    Text.isBlank c = true →
    Recognized directives lineStart c cs ⟨.blank, 0⟩
  | lineComment :
    c = '/' →
    cs.head? = some '/' →
    Recognized directives lineStart c cs ⟨.blank, (cs.takeWhile (· != '\n')).length⟩
  | blockComment {n} :
    c = '/' →
    cs.head? = some '*' →
    Text.indexOf? ['*', '/'] cs.tail = some n →
    Recognized directives lineStart c cs ⟨.blank, n + 3⟩
  | directive :
    c = '#' →
    lineStart = true →
    directives = true →
    Recognized directives lineStart c cs
      ⟨.token .directive, (cs.takeWhile (· != '\n')).length⟩
  | quote {l} :
    c = '"' →
    stringLexeme 0 cs = .ok l →
    Recognized directives lineStart c cs l
  | marked {l} :
    c = '@' ∨ c = '$' →
    markedLexeme c cs = .ok l →
    Recognized directives lineStart c cs l
  | character {n} :
    c = '\'' →
    characterBody false cs = (n, true) →
    Recognized directives lineStart c cs ⟨.token .character, n⟩
  | number {l} :
    (c.isDigit = true ∨ c = '.' ∧ cs.head?.any Char.isDigit = true) →
    numberLexeme c cs = l →
    Recognized directives lineStart c cs l
  | word {l} :
    Text.startsWord c = true →
    wordLexeme c cs = l →
    Recognized directives lineStart c cs l
  | sign {l} :
    punctuatorLexeme c cs = .ok l →
    Recognized directives lineStart c cs l

/-- A lexeme that is read is read in one of these ways. -/
lemma recognized_of_lexeme {directives lineStart c cs l}
    (h : lexeme directives lineStart c cs = .ok l) : Recognized directives lineStart c cs l := by
  unfold lexeme at h
  rw [ite_eq_iff] at h
  rcases h with ⟨hc, h⟩ | ⟨-, h⟩
  · cases h
    exact .blank hc
  rw [ite_eq_iff] at h
  rcases h with ⟨hc, h⟩ | ⟨-, h⟩
  · cases h
    simp only [Bool.and_eq_true, decide_eq_true_eq, beq_iff_eq] at hc
    exact .lineComment hc.1 hc.2
  rw [ite_eq_iff] at h
  rcases h with ⟨hc, h⟩ | ⟨-, h⟩
  · simp only [Bool.and_eq_true, decide_eq_true_eq, beq_iff_eq] at hc
    split at h
    case h_2 => cases h
    case h_1 n hn =>
      cases h
      exact .blockComment hc.1 hc.2 hn
  rw [ite_eq_iff] at h
  rcases h with ⟨hc, h⟩ | ⟨-, h⟩
  · rw [ite_eq_iff] at h
    rcases h with ⟨-, h⟩ | ⟨hstart, h⟩
    · cases h
    rw [ite_eq_iff] at h
    rcases h with ⟨-, h⟩ | ⟨hallowed, h⟩
    · cases h
    · cases h
      exact .directive hc (by simpa using hstart) (by simpa using hallowed)
  rw [ite_eq_iff] at h
  rcases h with ⟨hc, h⟩ | ⟨-, h⟩
  · exact .quote hc h
  rw [ite_eq_iff] at h
  rcases h with ⟨hc, h⟩ | ⟨-, h⟩
  · exact .marked (by simpa using hc) h
  rw [ite_eq_iff] at h
  rcases h with ⟨hc, h⟩ | ⟨-, h⟩
  · split at h
    case h_2 => cases h
    case h_1 n hn =>
      cases h
      exact .character hc hn
  rw [ite_eq_iff] at h
  rcases h with ⟨hc, h⟩ | ⟨-, h⟩
  · exact .number (.inl hc) (Except.ok.inj h)
  rw [ite_eq_iff] at h
  rcases h with ⟨hc, h⟩ | ⟨-, h⟩
  · exact .number (.inr (by simpa using hc)) (Except.ok.inj h)
  rw [ite_eq_iff] at h
  rcases h with ⟨hc, h⟩ | ⟨-, h⟩
  · exact .word hc (Except.ok.inj h)
  · exact .sign h

/-- A token that is read has a spelling of its kind. -/
theorem lexeme_spelling {directives lineStart c cs kind n}
    (h : lexeme directives lineStart c cs = .ok ⟨.token kind, n⟩) :
    n ≤ cs.length ∧ Spelling kind (c :: cs.take n) := by
  cases recognized_of_lexeme h with
  | directive hc =>
    subst hc
    obtain ⟨w, r, rfl, hw, hr⟩ := Text.exists_takeWhile_split (· != '\n') cs
    rw [Text.takeWhile_append_stop hw hr, List.take_left]
    exact ⟨by simp, .directive fun x hx => by simpa using hw x hx⟩
  | quote hc h =>
    subst hc
    obtain ⟨m, hle, rfl, hs⟩ := stringLexeme_spelling [] (by simp) h
    rw [List.length_nil, Nat.zero_add]
    exact ⟨hle, hs⟩
  | marked hc h => exact markedLexeme_spelling hc h
  | character hc e =>
    subst hc
    obtain ⟨hle, happ⟩ := characterBody_take e
    refine ⟨hle, .character ?_⟩
    have := happ []
    rw [List.append_nil] at this
    rw [this, List.length_take, Nat.min_eq_left hle]
  | number hc h => exact numberLexeme_spelling hc h
  | word hc h => exact wordLexeme_spelling hc h
  | sign h => exact punctuatorLexeme_spelling h

/-- No token is empty. -/
lemma Spelling.exists_cons {kind t} (h : Spelling kind t) : ∃ c w, t = c :: w := by
  cases h with
  | quoted hl => rcases hl with rfl | rfl <;> exact ⟨_, _, rfl⟩
  | verbatim hl => rcases hl with rfl | rfl | rfl <;> exact ⟨_, _, rfl⟩
  | punctuator hp => exact List.exists_cons_of_ne_nil (punctuator_ne_nil _ hp)
  | _ => exact ⟨_, _, rfl⟩

/-- No token starts with white space. -/
lemma Spelling.isBlank {kind c w} (h : Spelling kind (c :: w)) : Text.isBlank c = false := by
  generalize e : c :: w = t at h
  cases h with
  | word hc =>
    cases e
    exact Text.isBlank_of_startsWord hc
  | number hc =>
    cases e
    rcases hc with hc | ⟨rfl, -⟩
    · exact Text.isBlank_of_continuesWord (Text.continuesWord_of_isDigit hc)
    · decide
  | punctuator hp => exact (punctuator_chars _ hp c (by rw [← e]; rfl)).1
  | quoted hl => rcases hl with rfl | rfl <;> cases e <;> decide
  | verbatim hl => rcases hl with rfl | rfl | rfl <;> cases e <;> decide
  | escaped | character | directive =>
    cases e
    decide

/-- No token starts with a space. -/
lemma Spelling.ne_space {kind c w} (h : Spelling kind (c :: w)) : c ≠ ' ' := by
  rintro rfl
  exact absurd h.isBlank (by decide)

/-- A word is an identifier or reserved. -/
lemma wordKind_or (w : List Char) : wordKind w = .identifier ∨ wordKind w = .keyword := by
  unfold wordKind
  split
  · exact .inr rfl
  · exact .inl rfl

/-- A number starts with a digit or a point before one, and goes on to its end. -/
lemma Spelling.of_number {c w} (h : Spelling .number (c :: w)) :
    (c.isDigit = true ∨ c = '.' ∧ w.head?.any Char.isDigit = true) ∧
      numberBody (isHex c w) c w = w.length := by
  generalize hk : TokenKind.number = kind at h
  generalize ht : c :: w = t at h
  cases h with
  | number hc hw => cases ht; exact ⟨hc, hw⟩
  | @word c' w' => rcases wordKind_or (c' :: w') with e | e <;> rw [e] at hk <;> cases hk
  | _ => cases hk

/-- A sign is one of the punctuators. -/
lemma Spelling.of_punctuator {t : String} (h : Spelling .punctuator t.toList) :
    t ∈ punctuators := by
  generalize hk : TokenKind.punctuator = kind at h
  generalize ht : t.toList = cs at h
  cases h with
  | punctuator hp => rwa [String.toList_inj.1 ht]
  | @word c' w' => rcases wordKind_or (c' :: w') with e | e <;> rw [e] at hk <;> cases hk
  | _ => cases hk

/-- A directive starts with a sign. -/
lemma Spelling.of_directive {t} (h : Spelling .directive t) : ∃ w, t = '#' :: w := by
  generalize hk : TokenKind.directive = kind at h
  cases h with
  | @directive w => exact ⟨w, rfl⟩
  | @word c' w' => rcases wordKind_or (c' :: w') with e | e <;> rw [e] at hk <;> cases hk
  | _ => cases hk

/-- Without directives no directive is read. -/
lemma lexeme_ne_directive {lineStart c cs kind n}
    (h : lexeme false lineStart c cs = .ok ⟨.token kind, n⟩) : kind ≠ .directive := by
  rintro rfl
  obtain ⟨w, hw⟩ := (lexeme_spelling h).2.of_directive
  obtain ⟨rfl, -⟩ := List.cons.inj hw
  have hb : Text.isBlank '#' = false := by decide
  cases lineStart <;> simp [lexeme, hb] at h

/-- The tokens of a text have spellings, and without directives none of them is one. -/
lemma spelling_of_mem_tokensFrom {p cs ts} (h : tokensFrom false p 0 cs = .ok ts) :
    ∀ t ∈ ts, Spelling t.kind t.text.toList ∧ t.kind ≠ .directive := by
  refine tokensFrom_induction
    (motive := fun _ _ ts => ∀ t ∈ ts, Spelling t.kind t.text.toList ∧ t.kind ≠ .directive)
    ?_ ?_ ?_ h
  · exact fun _ => List.forall_mem_nil _
  · exact fun _ _ _ _ _ _ ih => ih
  · intro p c cs kind n ts hl ih
    rw [List.forall_mem_cons, String.toList_ofList]
    exact ⟨⟨(lexeme_spelling hl).2, lexeme_ne_directive hl⟩, ih⟩

end SharpSmith.Fragment
