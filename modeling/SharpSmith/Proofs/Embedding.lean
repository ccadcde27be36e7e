import SharpSmith.Proofs.Nesting
import SharpSmith.Proofs.Spacing

/-!
# Fragments inside of a file

The text of a fragment may have other tokens than the fragment was read from, or none, when two of
them have fused. But tokens can only fuse with signs and words, so reading stays in step at every
delimiter, comma, semicolon and literal: what follows the fragment is read as if the fragment were
not there, and the delimiters of the fragment stay what they were. `Mixed` describes such texts, and
`Mixed.read` says that they stand apart from what follows them.
-/

namespace SharpSmith.Fragment

/-- A character that may take part in a fusion: one of a word or of an operator. -/
def isSoft (c : Char) : Bool :=
  Text.continuesWord c ||
    ['?', '<', '=', '.', '>', '!', '&', '|', '+', '-', '*', '/', '%', '^', ':', '~'].contains c

/-- Characters of words are soft. -/
lemma isSoft_of_continuesWord {c} (h : Text.continuesWord c = true) : isSoft c = true := by
  rw [isSoft, h, Bool.true_or]

/-- No word has a `/` in it. -/
lemma ne_solidus_of_continuesWord {c} (h : Text.continuesWord c = true) : c ≠ '/' := by
  rintro rfl
  exact absurd h (by decide)

/-- Characters that are not soft are not of a word. -/
lemma continuesWord_of_not_soft {c} (h : isSoft c = false) : Text.continuesWord c = false := by
  rw [isSoft, Bool.or_eq_false_iff] at h
  exact h.1

/-- A soft character is none of those that start a literal, a directive or white space. -/
lemma ne_of_isSoft {c} (h : isSoft c = true) :
    Text.isBlank c = false ∧ c ≠ '#' ∧ c ≠ '"' ∧ c ≠ '@' ∧ c ≠ '$' ∧ c ≠ '\'' := by
  have hne : ∀ x, isSoft x = false → c ≠ x := by
    rintro x hx rfl
    rw [h] at hx
    cases hx
  refine ⟨?_, hne _ (by decide), hne _ (by decide), hne _ (by decide),
    hne _ (by decide), hne _ (by decide)⟩
  rw [isSoft, Bool.or_eq_true] at h
  rcases h with h | h
  · exact Text.isBlank_of_continuesWord h
  · have signs : ['?', '<', '=', '.', '>', '!', '&', '|', '+', '-', '*', '/', '%', '^', ':',
        '~'].any Text.isBlank = false := by decide
    simpa using List.any_eq_false.1 signs c (by simpa using h)

/-- A punctuator that starts with a soft character is soft and no delimiter; any other is a single
character. -/
lemma punctuator_soft : ∀ p ∈ punctuators,
    if p.toList.head?.all isSoft then
      p.toList.all isSoft = true ∧ p ∉ ["(", ")", "[", "]", "\x7b", "\x7d"]
    else p.length = 1 := by
  decide

/-- The rest of a text starts with nothing that a fragment could go on with. -/
def Apart (r : List Char) : Prop :=
  ∀ x ∈ r.head?, isSoft x = false ∧ x ≠ '"'

/-- What stands apart does not go on with a word. -/
lemma Apart.continuesWord {r} (h : Apart r) : ∀ x ∈ r.head?, Text.continuesWord x = false :=
  fun x hx => continuesWord_of_not_soft (h x hx).1

/-- What stands apart does not start with a digit. -/
lemma Apart.isDigit {r} (h : Apart r) : r.head?.any Char.isDigit = false := by
  rw [Option.any_eq_false]
  intro x hx
  by_contra hd
  have hword := h.continuesWord x hx
  rw [Text.continuesWord_of_isDigit (by simpa using hd)] at hword
  cases hword

/-- Whether a text starts with a digit does not depend on what stands apart from it. -/
lemma Apart.head?_isDigit {cs r} (h : Apart r) :
    (cs ++ r).head?.any Char.isDigit = cs.head?.any Char.isDigit := by
  cases cs with
  | nil => exact h.isDigit
  | cons c cs => rfl

/-- A word is read in the same way before what stands apart from it. -/
lemma wordLexeme_apart {c cs r} (h : Apart r) : wordLexeme c (cs ++ r) = wordLexeme c cs := by
  obtain ⟨w, u, rfl, hw, hu⟩ := Text.exists_takeWhile_split Text.continuesWord cs
  rw [wordLexeme_append hw hu, List.append_assoc, wordLexeme_append hw]
  cases u with
  | nil => exact h.continuesWord
  | cons => exact hu

/-- A number is read in the same way before what stands apart from it. -/
lemma numberBody_apart {hex previous cs r} (h : Apart r) :
    numberBody hex previous (cs ++ r) = numberBody hex previous cs := by
  induction cs generalizing previous with
  | nil =>
    cases r with
    | nil => rfl
    | cons x r =>
      have hx := (h x rfl).1
      have hne : ∀ y, isSoft y = true → x ≠ y := by
        rintro y hy rfl
        rw [hx] at hy
        cases hy
      rw [List.nil_append, numberBody_cons, if_neg]
      · rfl
      · simp [continuesWord_of_not_soft hx, hne '+' (by decide),
          hne '-' (by decide), hne '.' (by decide)]
  | cons c cs ih => rw [List.cons_append, numberBody_cons, numberBody_cons, h.head?_isDigit, ih]

/-- Characters of numbers are soft, and none is a `/`. -/
lemma isSoft_of_mem_number {hex previous} {cs : List Char} :
    ∀ x ∈ cs.take (numberBody hex previous cs), isSoft x = true ∧ x ≠ '/' := by
  induction cs generalizing previous with
  | nil => simp
  | cons c cs ih =>
    rw [numberBody_cons]
    split
    case isFalse => simp
    case isTrue hc =>
      rw [List.take_succ_cons, List.forall_mem_cons]
      refine ⟨?_, ih⟩
      simp only [Bool.or_eq_true, Bool.and_eq_true, beq_iff_eq] at hc
      rcases hc with (hc | ⟨⟨rfl | rfl, -⟩, -⟩) | ⟨rfl, -⟩
      · exact ⟨isSoft_of_continuesWord hc, ne_solidus_of_continuesWord hc⟩
      · exact ⟨by decide, by decide⟩
      · exact ⟨by decide, by decide⟩
      · exact ⟨by decide, by decide⟩

/-- A punctuator that starts with a soft character ends before what stands apart. -/
lemma punctuatorLexeme_apart {c cs r} (hc : isSoft c = true) (h : Apart r) :
    punctuatorLexeme c (cs ++ r) = punctuatorLexeme c cs := by
  have same : ∀ p ∈ punctuators,
      p.toList.isPrefixOf (c :: cs ++ r) = p.toList.isPrefixOf (c :: cs) := by
    intro p hp
    rw [Bool.eq_iff_iff, List.isPrefixOf_iff_prefix, List.isPrefixOf_iff_prefix]
    refine ⟨fun hpre => ?_, fun hpre => hpre.trans (List.prefix_append _ _)⟩
    rcases Nat.lt_or_ge (c :: cs).length p.toList.length with hlt | hge
    · -- a longer one would hold the first character of the rest, which is not soft
      obtain ⟨v, hv⟩ := List.prefix_of_prefix_length_le (List.prefix_append _ r) hpre
        (Nat.le_of_lt hlt)
      obtain ⟨x, v, rfl⟩ : ∃ x v', v = x :: v' := by
        refine List.exists_cons_of_ne_nil ?_
        rintro rfl
        rw [← hv, List.append_nil] at hlt
        exact absurd hlt (Nat.lt_irrefl _)
      rw [← hv] at hpre
      have hr : r.head? = some x := by
        obtain ⟨u, hu⟩ := (List.prefix_append_right_inj _).1 hpre
        rw [← hu]
        rfl
      have hsoft := punctuator_soft p hp
      rw [← hv, if_pos (by simpa using hc)] at hsoft
      have hx := List.all_eq_true.1 hsoft.1 x (by simp)
      rw [(h x hr).1] at hx
      cases hx
    · exact List.prefix_of_prefix_length_le hpre (List.prefix_append _ _) hge
  unfold punctuatorLexeme
  rw [← List.cons_append, List.find?_congr same]

/-- A soft character that starts no comment starts a number, a word or a punctuator. -/
lemma lexeme_of_soft {directives lineStart c cs} (hc : isSoft c = true)
    (hcomment : c = '/' → ∀ x ∈ cs.head?, x ≠ '/' ∧ x ≠ '*') :
    lexeme directives lineStart c cs =
      if c.isDigit then .ok (numberLexeme c cs)
      else if c = '.' && cs.head?.any Char.isDigit then .ok (numberLexeme c cs)
      else if Text.startsWord c then .ok (wordLexeme c cs)
      else punctuatorLexeme c cs := by
  obtain ⟨hb, h1, h2, h3, h4, h5⟩ := ne_of_isSoft hc
  exact lexeme_of_plain hb h1 h2 h3 h4 h5 hcomment

/-- What starts with a soft character is read without what stands apart. -/
lemma lexeme_apart {directives lineStart directives' lineStart' c cs r} (hc : isSoft c = true)
    (hcomment : c = '/' → ∀ x ∈ cs.head?, x ≠ '/' ∧ x ≠ '*') (h : Apart r) :
    lexeme directives lineStart c (cs ++ r) = lexeme directives' lineStart' c cs := by
  have hcomment' : c = '/' → ∀ x ∈ (cs ++ r).head?, x ≠ '/' ∧ x ≠ '*' := by
    intro e x hx
    cases cs with
    | cons y cs => exact hcomment e x hx
    | nil =>
      have hsoft := (h x hx).1
      constructor <;> (rintro rfl; exact absurd hsoft (by decide))
  have hnumber : numberLexeme c (cs ++ r) = numberLexeme c cs := by
    show (⟨.token .number, numberBody (isHex c (cs ++ r)) c (cs ++ r)⟩ : Lexeme) = _
    rw [isHex_append h.continuesWord, numberBody_apart h]
    rfl
  rw [lexeme_of_soft hc hcomment', lexeme_of_soft hc hcomment, hnumber, h.head?_isDigit,
    wordLexeme_apart h, punctuatorLexeme_apart hc h]

/-- What is read at a soft character is soft, and no delimiter. -/
lemma soft_of_lexeme {directives lineStart c cs shape n} (hc : isSoft c = true)
    (hcomment : c = '/' → ∀ x ∈ cs.head?, x ≠ '/' ∧ x ≠ '*')
    (h : lexeme directives lineStart c cs = .ok ⟨shape, n⟩) :
    ∃ kind, shape = .token kind ∧ (∀ x ∈ cs.take n, isSoft x = true) ∧
      Loose (kind, String.ofList (c :: cs.take n)) := by
  have number : ∀ {l}, numberLexeme c cs = l → l = ⟨shape, n⟩ → ∃ kind, shape = .token kind ∧
      (∀ x ∈ cs.take n, isSoft x = true) ∧ Loose (kind, String.ofList (c :: cs.take n)) := by
    rintro l hl rfl
    cases hl
    exact ⟨.number, rfl, fun x hx => (isSoft_of_mem_number x hx).1, nofun, nofun⟩
  rw [lexeme_of_soft hc hcomment] at h
  split at h
  case isTrue => exact number rfl (Except.ok.inj h)
  split at h
  case isTrue => exact number rfl (Except.ok.inj h)
  split at h
  case isTrue =>
    obtain ⟨w, u, rfl, hw, hu⟩ := Text.exists_takeWhile_split Text.continuesWord cs
    rw [wordLexeme_append hw hu] at h
    cases h
    refine ⟨_, rfl, ?_, ?_⟩
    · rw [List.take_left]
      exact fun x hx => isSoft_of_continuesWord (hw x hx)
    · rcases wordKind_or (c :: w) with e | e <;> rw [e] <;> exact ⟨nofun, nofun⟩
  case isFalse =>
    have hshape : shape = .token .punctuator := by
      unfold punctuatorLexeme at h
      split at h <;> cases h
      rfl
    subst hshape
    have hs := (punctuatorLexeme_spelling h).2
    rw [← String.toList_ofList (l := c :: cs.take n)] at hs
    have hsoft := punctuator_soft _ hs.of_punctuator
    rw [String.toList_ofList, if_pos (by simpa using hc), List.all_cons, Bool.and_eq_true] at hsoft
    exact ⟨.punctuator, rfl, List.all_eq_true.1 hsoft.1.2, nofun, fun _ => hsoft.2⟩

/-- What is read of one text after the other. -/
def chain (v w : Option (List (TokenKind × String))) : Option (List (TokenKind × String)) :=
  v.bind fun bs => w.map (bs ++ ·)

/-- Nothing is read after what cannot be read. -/
@[simp] lemma chain_none {w} : chain none w = none := rfl

/-- After nothing is read what follows. -/
@[simp] lemma chain_nil {w} : chain (some []) w = w := by
  cases w <;> rfl

/-- How texts are grouped does not change what is read of them. -/
lemma chain_assoc {u v w} : chain (chain u v) w = chain u (chain v w) := by
  cases u <;> cases v <;> cases w <;> simp [chain]

/-- A token before two texts is a token before the first of them. -/
lemma map_chain {b v w} : (chain v w).map (b :: ·) = chain (v.map (b :: ·)) w := by
  cases v <;> cases w <;> simp [chain]

/-- A token of the given kind and text, wherever it stands. -/
def unread (b : TokenKind × String) : Token :=
  ⟨b.1, b.2, 0, false⟩

/-- A text of soft characters, spaces and whole tokens, in which no comment starts, and what its
delimiters do to the openers that wait. -/
inductive Mixed : List Char → (List String → Option (List String)) → Prop where
  | nil : Mixed [] some
  | space {cs f} :
    Mixed cs f →
    Mixed (' ' :: cs) f
  | soft {c cs f} :
    isSoft c = true →
    (c = '/' → ∀ x ∈ cs.head?, x ≠ '/' ∧ x ≠ '*') →
    Mixed cs f →
    Mixed (c :: cs) f
  | token {t : Token} {cs f} :
    Spelling t.kind t.text.toList →
    t.kind ≠ .directive →
    (∀ x ∈ t.text.toList.head?, isSoft x = false) →
    (∀ r, Apart r → Ends t.kind t.text.toList (cs ++ r)) →
    Mixed cs f →
    Mixed (t.text.toList ++ cs) fun stack => (t.nest? stack).bind f

/-- A mixed text stays mixed without a soft character at its start. -/
lemma Mixed.tail_of_soft {c cs f} (h : Mixed (c :: cs) f) (hc : isSoft c = true) : Mixed cs f := by
  generalize e : c :: cs = all at h
  cases h with
  | nil => cases e
  | space =>
    cases e
    exact absurd hc (by decide)
  | soft _ _ h =>
    cases e
    exact h
  | @token t _ _ hs _ hsoft =>
    obtain ⟨x, w, hw⟩ := hs.exists_cons
    rw [hw] at e hsoft
    cases e
    rw [hsoft c rfl] at hc
    cases hc

/-- A mixed text stays mixed without soft characters at its start. -/
lemma Mixed.drop {cs f n} (h : Mixed cs f) (hs : ∀ x ∈ cs.take n, isSoft x = true) :
    Mixed (cs.drop n) f := by
  induction n generalizing cs with
  | zero => exact h
  | succ n ih =>
    cases cs with
    | nil => exact h
    | cons c cs =>
      rw [List.take_succ_cons, List.forall_mem_cons] at hs
      exact ih (h.tail_of_soft hs.1) hs.2

/-- The end of a text stands apart from everything. -/
lemma apart_nil : Apart [] := nofun

/-- A token that neither opens nor closes anything leaves the waiting openers as they are. -/
lemma nest?_loose {b stack} (h : Loose b) : (unread b).nest? stack = some stack := by
  have hl : Loose (unread b).bare := h
  obtain ⟨ho, hc⟩ := not_delimiter_of_loose hl
  exact nest?_token ho hc

/-- A space is passed over. -/
lemma bareTokens?_space {directives r} :
    bareTokens? directives false (' ' :: r) = bareTokens? directives false r := by
  have hblank : Text.isBlank ' ' = true := by decide
  exact bareTokens?_isBlank hblank

/-- A text is read apart from what stands apart from it, and its delimiters do `f` to the openers
that wait. -/
structure ReadApart (cs : List Char) (f : List String → Option (List String)) : Prop where
  append : ∀ directives r, Apart r → bareTokens? directives false (cs ++ r) =
    chain (bareTokens? false false cs) (bareTokens? directives false r)
  tokens : ∀ bs, bareTokens? false false cs = some bs →
    (∀ b ∈ bs, b.1 ≠ .directive) ∧ ∀ stack, waiting? stack (bs.map unread) = f stack

/-- The empty text is read apart. -/
lemma ReadApart.nil : ReadApart [] some where
  append d r _ := by simp
  tokens bs hbs := by
    rw [bareTokens?_nil] at hbs
    cases hbs
    exact ⟨nofun, fun _ => rfl⟩

/-- A text is read apart also with a space before it. -/
lemma ReadApart.space {cs f} (h : ReadApart cs f) : ReadApart (' ' :: cs) f where
  append d r hr := by
    rw [List.cons_append, bareTokens?_space, bareTokens?_space]
    exact h.append d r hr
  tokens bs hbs := by
    rw [bareTokens?_space] at hbs
    exact h.tokens bs hbs

/-- A text that has no tokens, whatever comes after it. -/
lemma ReadApart.stuck {cs f} (h : ∀ d r, Apart r → bareTokens? d false (cs ++ r) = none) :
    ReadApart cs f := by
  have hcs : bareTokens? false false cs = none := by simpa using h false [] apart_nil
  refine ⟨fun d r hr => ?_, fun bs hbs => ?_⟩
  · rw [h d r hr, hcs, chain_none]
  · rw [hcs] at hbs
    cases hbs

/-- A text of which first a token is read, and then what is read of `cs`. -/
lemma ReadApart.token {b cs all f} (h : ReadApart cs f) (hd : b.1 ≠ .directive)
    (hread : ∀ d r, Apart r →
      bareTokens? d false (all ++ r) = (bareTokens? d false (cs ++ r)).map (b :: ·)) :
    ReadApart all fun stack => ((unread b).nest? stack).bind f := by
  have hall : bareTokens? false false all = (bareTokens? false false cs).map (b :: ·) := by
    simpa using hread false [] apart_nil
  refine ⟨fun d r hr => ?_, fun bs hbs => ?_⟩
  · rw [hread d r hr, h.append d r hr, hall, map_chain]
  · rw [hall] at hbs
    obtain ⟨us, hus, rfl⟩ := Option.map_eq_some_iff.1 hbs
    obtain ⟨hdirectives, hwaiting⟩ := h.tokens us hus
    refine ⟨List.forall_mem_cons.2 ⟨hd, hdirectives⟩, fun stack => ?_⟩
    rw [List.map_cons, waiting?_cons]
    exact congrArg (Option.bind _) (funext hwaiting)

/-- A mixed text is read apart from what follows it, and the delimiters that are read are those
that it was made of. -/
theorem Mixed.read {cs f} (h : Mixed cs f) : ReadApart cs f := by
  -- a lexeme takes at least one character and leaves a mixed text
  induction hn : cs.length using Nat.strongRecOn generalizing cs f with
  | ind n ih =>
    cases h with
    | nil => exact .nil
    | space hm => exact (ih _ (by simp [← hn]) hm rfl).space
    | @soft c cs _ hc hcomment hm =>
      cases hl : lexeme false false c cs with
      | error e =>
        exact .stuck fun d r hr => bareTokens?_stuck ((lexeme_apart hc hcomment hr).trans hl)
      | ok l =>
        obtain ⟨shape, k⟩ := l
        obtain ⟨kind, rfl, hsoft, hloose⟩ := soft_of_lexeme hc hcomment hl
        have hk := (lexeme_spelling hl).1
        have hlt : (cs.drop k).length < n := by
          rw [← hn, List.length_drop, List.length_cons]
          omega
        have hf : (fun stack =>
            ((unread (kind, String.ofList (c :: cs.take k))).nest? stack).bind f) = f := by
          funext stack
          rw [nest?_loose hloose, Option.bind_some]
        rw [← hf]
        refine (ih _ hlt (hm.drop hsoft) rfl).token hloose.notDirective fun d r hr => ?_
        rw [List.cons_append, bareTokens?_token ((lexeme_apart hc hcomment hr).trans hl),
          List.drop_append_of_le_length hk, List.take_append_of_le_length hk]
    | @token t cs f hs hd _ he hm =>
      have hlt : cs.length < n := by
        obtain ⟨x, w, hw⟩ := hs.exists_cons
        rw [← hn, hw, List.length_append, List.length_cons]
        omega
      refine (ih _ hlt hm rfl).token (b := (t.kind, t.text)) hd fun d r hr => ?_
      rw [List.append_assoc, bareTokens?_of_ends hs hd (he r hr), String.ofList_toList]

/-- The only punctuators with the sign of a comment in them. -/
lemma punctuator_solidus : ∀ p ∈ punctuators, p.toList.contains '/' = true → p ∈ ["/", "/="] := by
  decide

/-- A token whose first character is soft is soft, and no delimiter. -/
lemma Spelling.soft {kind c w} (h : Spelling kind (c :: w)) (hc : isSoft c = true) :
    (∀ x ∈ c :: w, isSoft x = true) ∧ Loose (kind, String.ofList (c :: w)) ∧
      ('/' ∈ c :: w → kind = .punctuator ∧ String.ofList (c :: w) ∈ ["/", "/="]) := by
  have hne : ∀ x, isSoft x = false → c ≠ x := by
    rintro x hx rfl
    rw [hc] at hx
    cases hx
  generalize e : c :: w = t at h
  cases h with
  | word hc' hw =>
    have hall : ∀ x ∈ c :: w, Text.continuesWord x = true := by
      rw [e]
      exact List.forall_mem_cons.2 ⟨Text.continuesWord_of_startsWord hc', hw⟩
    rw [← e]
    refine ⟨fun x hx => isSoft_of_continuesWord (hall x hx), ?_, fun hmem => ?_⟩
    · rcases wordKind_or (c :: w) with e | e <;> rw [e] <;> exact ⟨nofun, nofun⟩
    · exact absurd rfl (ne_solidus_of_continuesWord (hall _ hmem))
  | number hc' hw =>
    cases e
    have hrest : ∀ x ∈ w, isSoft x = true ∧ x ≠ '/' := by
      have h : ∀ x ∈ w.take (numberBody (isHex c w) c w), isSoft x = true ∧ x ≠ '/' :=
        isSoft_of_mem_number
      rwa [hw, List.take_length] at h
    refine ⟨List.forall_mem_cons.2 ⟨hc, fun x hx => (hrest x hx).1⟩, ⟨nofun, nofun⟩, fun hmem => ?_⟩
    rcases List.mem_cons.1 hmem with rfl | hmem
    · simp at hc'
    · exact absurd rfl (hrest _ hmem).2
  | @punctuator p hp =>
    have hsoft := punctuator_soft p hp
    rw [← e, if_pos (by simpa using hc)] at hsoft
    rw [String.ofList_toList, ← e]
    refine ⟨List.all_eq_true.1 hsoft.1, ⟨nofun, fun _ => hsoft.2⟩, fun hmem => ⟨rfl, ?_⟩⟩
    rw [e] at hmem
    exact punctuator_solidus p hp (by simpa using hmem)
  | quoted hl =>
    rcases hl with rfl | rfl <;> cases e <;> exact absurd rfl (hne _ (by decide))
  | verbatim hl =>
    rcases hl with rfl | rfl | rfl <;> cases e <;> exact absurd rfl (hne _ (by decide))
  | escaped | character | directive => cases e; exact absurd rfl (hne _ (by decide))

/-- A token that does not start with a soft character ends before everything that neither goes on
with a word nor with a string. -/
lemma Spelling.ends_of_hard {kind c w r} (h : Spelling kind (c :: w)) (hd : kind ≠ .directive)
    (hc : isSoft c = false) (hr : kind ≠ .punctuator → ∀ x ∈ r.head?,
      Text.continuesWord x = false ∧ x ≠ '"') : Ends kind (c :: w) r := by
  cases kind with
  | identifier | keyword => exact fun x hx => (hr nofun x hx).1
  | string =>
    intro hq
    exact (hr nofun '"' hq).2 rfl
  | character => trivial
  | directive => exact absurd rfl hd
  | number =>
    rcases h.of_number.1 with hd | ⟨rfl, -⟩
    · rw [isSoft_of_continuesWord (Text.continuesWord_of_isDigit hd)] at hc
      cases hc
    · exact absurd hc (by decide)
  | punctuator =>
    have hne : ∀ x, isSoft x = true → c ≠ x := by
      rintro x hx rfl
      rw [hc] at hx
      cases hx
    intro x _
    refine ⟨fun hmem => ?_, fun hp => ?_, fun hp => ?_⟩
    · have hlength := punctuator_soft _ hmem
      rw [String.toList_ofList, if_neg (by simp [hc])] at hlength
      simp at hlength
    · exact hne '.' (by decide) (List.cons.inj hp.1).1
    · exact hne '/' (by decide) (List.cons.inj hp.1).1

/-- Soft characters before a mixed text make up a mixed text with it. -/
lemma Mixed.append_soft {w cs f} (hw : ∀ x ∈ w, isSoft x = true ∧ x ≠ '/') (h : Mixed cs f) :
    Mixed (w ++ cs) f := by
  induction w with
  | nil => exact h
  | cons c w ih =>
    obtain ⟨hc, hne⟩ := hw c (.head _)
    exact .soft hc (fun e => absurd e hne) (ih fun x hx => hw x (.tail _ hx))

/-- A token may stand before a mixed text when it ends there, or is soft and starts no comment. -/
lemma Mixed.cons {t : Token} {cs f} (hs : Spelling t.kind t.text.toList) (hd : t.kind ≠ .directive)
    (h : Mixed cs f)
    (hends : t.kind ≠ .punctuator → ∀ r, Apart r → ∀ x ∈ (cs ++ r).head?,
      Text.continuesWord x = false ∧ x ≠ '"')
    (hcomment : t.kind = .punctuator → t.text = "/" → ∀ x ∈ cs.head?, x ≠ '/' ∧ x ≠ '*') :
    Mixed (t.text.toList ++ cs) fun stack => (t.nest? stack).bind f := by
  obtain ⟨c, w, hw⟩ := hs.exists_cons
  cases hc : isSoft c with
  | false =>
    refine .token hs hd (fun x hx => ?_) (fun r hr => ?_) h
    · rw [hw] at hx
      cases hx
      exact hc
    · rw [hw] at hs ⊢
      exact hs.ends_of_hard hd hc fun hk => hends hk r hr
  | true =>
    rw [hw] at hs
    obtain ⟨hsoft, hloose, hsolidus⟩ := hs.soft hc
    rw [← hw, String.ofList_toList] at hloose hsolidus
    have hf : (fun stack => (t.nest? stack).bind f) = f := by
      funext stack
      obtain ⟨ho, hcl⟩ := not_delimiter_of_loose hloose
      rw [nest?_token ho hcl, Option.bind_some]
    rw [hf, hw]
    by_cases hmem : '/' ∈ c :: w
    · obtain ⟨hk, ht⟩ := hsolidus (hw ▸ hmem)
      simp only [List.mem_cons, List.not_mem_nil, or_false] at ht
      rcases ht with ht | ht
      · rw [← hw, ht]
        show Mixed ('/' :: cs) f
        exact .soft (by decide) (fun _ => hcomment hk ht) h
      · rw [← hw, ht]
        show Mixed ('/' :: '=' :: cs) f
        exact .soft (by decide) (by simp) (.soft (by decide) (by simp) h)
    · refine .append_soft (fun x hx => ⟨hsoft x hx, ?_⟩) h
      rintro rfl
      exact hmem hx

/-- The text of tokens with roles is mixed, and its delimiters are those of the tokens. -/
lemma mixed_joinRoles {ts : List (Token × Role)} (h : ∀ x ∈ ts, Placed x) :
    Mixed (joinRoles ts).toList fun stack => waiting? stack (ts.map Prod.fst) := by
  induction ts with
  | nil => exact .nil
  | cons p ts ih =>
    have hp : Placed p := h p (.head _)
    have ih := ih fun x hx => h x (.tail _ hx)
    simp only [List.map_cons, waiting?_cons]
    cases ts with
    | nil =>
      have htext : (joinRoles [p]).toList = p.1.text.toList ++ [] := by
        simp [joinRoles, joinAfter]
      rw [htext]
      refine .cons hp.spelling hp.notDirective .nil (fun _ r hr x hx => ?_) fun _ _ y hy => ?_
      · exact ⟨hr.continuesWord x hx, (hr x hx).2⟩
      · cases hy
    | cons c ts =>
      have hc : Placed c := h c (.tail _ (.head _))
      obtain ⟨x, w, hw⟩ := hc.spelling.exists_cons
      cases hglue : spaceBetween p c with
      | true =>
        rw [toList_joinRoles_spaced hglue]
        refine .cons hp.spelling hp.notDirective (.space ih) (fun _ r _ y hy => ?_)
          fun _ _ y hy => ?_
        · cases hy
          exact ⟨by decide, by decide⟩
        · cases hy
          exact ⟨by decide, by decide⟩
      | false =>
        have hhead : (joinRoles (c :: ts)).toList = x :: (w ++ (joinAfter c ts).toList) := by
          simp [joinRoles, hw]
        rw [toList_joinRoles_glued hglue]
        refine .cons hp.spelling hp.notDirective ih (fun hk r _ y hy => ?_) fun hk ht y hy => ?_
        · -- only a sign follows without a space
          rw [hhead] at hy
          cases hy
          have hs := hc.spelling
          rw [kind_of_glued hp hc hglue hk] at hs
          exact ⟨continuesWord_of_punctuator _ hs.of_punctuator x (by rw [hw]; rfl),
            (punctuator_chars _ hs.of_punctuator x (by rw [hw]; rfl)).2.2.1⟩
        · rw [hhead] at hy
          cases hy
          by_contra hcomment
          rw [spaceBetween_solidus hp hc hk ht hw (by simpa [or_iff_not_imp_left] using hcomment)]
            at hglue
          cases hglue

end SharpSmith.Fragment
