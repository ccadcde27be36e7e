import SharpSmith.Proofs.BodyLines
import SharpSmith.Proofs.Embedding
import SharpSmith.Proofs.Places

/-!
# A `;` on a last line

What is read of a text is read of it too when a `;` stands after it on a line of its own, and
nothing more: no token and no comment goes over the end of a line unless it is closed, and what
closes it is neither a line feed nor a `;` (`Spelling.quote_of_newline`). So the text gets one token
more (`tokensFrom_newline`), and what cannot be read stays so.
-/

namespace SharpSmith

namespace Fragment

/-- A string that is closed ends with a quote. -/
lemma stringBody_quote {cs n} (h : stringBody cs = (n, true)) : ['"'] <:+ cs.take n := by
  induction cs using stringBody.induct generalizing n with
  | case1 => simp [stringBody] at h
  | case2 => simp [stringBody] at h
  | case3 d cs ih =>
    cases e : stringBody cs with
    | mk m closed =>
      rw [stringBody, e] at h
      cases h
      exact (ih e).trans ((List.suffix_cons _ _).trans (List.suffix_cons _ _))
  | case4 cs h1 h2 =>
    rw [stringBody, if_pos rfl] at h
    · cases h
      exact List.suffix_rfl
    · exact h1
    · exact h2
  | case5 cs h1 h2 h3 =>
    rw [stringBody, if_neg (by decide), if_pos rfl] at h
    · cases h
    · exact h1
    · exact h2
  | case6 c cs h1 h2 hq hn ih =>
    have hs : c ≠ '\\' := by
      rintro rfl
      cases cs with
      | nil => exact h1 rfl rfl
      | cons d cs => exact h2 d cs rfl rfl
    cases e : stringBody cs with
    | mk m closed =>
      rw [stringBody_cons hs, if_neg hq, if_neg hn, e] at h
      cases h
      exact (ih e).trans (List.suffix_cons _ _)

/-- A verbatim string that is closed ends with a quote. -/
lemma verbatimBody_quote {cs n} (h : verbatimBody cs = (n, true)) : ['"'] <:+ cs.take n := by
  induction cs using verbatimBody.induct generalizing n with
  | case1 => simp [verbatimBody] at h
  | case2 cs ih =>
    cases e : verbatimBody cs with
    | mk m closed =>
      rw [verbatimBody, e] at h
      cases h
      exact (ih e).trans ((List.suffix_cons _ _).trans (List.suffix_cons _ _))
  | case3 cs h1 =>
    rw [verbatimBody, if_pos rfl] at h
    · cases h
      exact List.suffix_rfl
    · exact h1
  | case4 c cs h1 hq ih =>
    cases e : verbatimBody cs with
    | mk m closed =>
      rw [verbatimBody_cons hq, e] at h
      cases h
      exact (ih e).trans (List.suffix_cons _ _)

/-- A character literal that is closed ends with its quote. -/
lemma characterBody_quote {filled cs n} (h : characterBody filled cs = (n, true)) :
    ['\''] <:+ cs.take n := by
  induction filled, cs using characterBody.induct generalizing n with
  | case1 => simp [characterBody] at h
  | case2 => simp [characterBody] at h
  | case3 filled d cs ih =>
    cases e : characterBody true cs with
    | mk m closed =>
      rw [characterBody, e] at h
      cases h
      exact (ih e).trans ((List.suffix_cons _ _).trans (List.suffix_cons _ _))
  | case4 filled cs h1 h2 =>
    rw [characterBody, if_pos rfl] at h
    · cases h
      exact List.suffix_rfl
    · exact h1
    · exact h2
  | case5 filled cs h1 h2 h3 =>
    rw [characterBody, if_neg (by decide), if_pos rfl] at h
    · cases h
    · exact h1
    · exact h2
  | case6 filled c cs h1 h2 hq hn ih =>
    have hs : c ≠ '\\' := by
      rintro rfl
      cases cs with
      | nil => exact h1 rfl rfl
      | cons d cs => exact h2 d cs rfl rfl
    cases e : characterBody true cs with
    | mk m closed =>
      rw [characterBody_cons hs, if_neg hq, if_neg hn, e] at h
      cases h
      exact (ih e).trans (List.suffix_cons _ _)

/-- A string, raw or not, ends with a quote. -/
lemma stringLexeme_quote {lead body}
    (h : stringLexeme lead body = .ok ⟨.token .string, lead + body.length⟩) : ['"'] <:+ body := by
  unfold stringLexeme at h
  split at h
  case isTrue =>
    dsimp only at h
    split at h
    case h_2 => cases h
    case h_1 n e =>
      have hlength : lead + _ + n + _ = lead + body.length :=
        congrArg Lexeme.extra (Except.ok.inj h)
      have hle := (List.takeWhile_sublist (l := body) (· == '"')).length_le
      generalize (body.takeWhile (· == '"')).length = more at *
      obtain ⟨before, after, hdrop, rfl, -⟩ := (Text.indexOf?_eq_some_iff (by simp)).1 e
      have hrest := congrArg List.length hdrop
      simp only [List.length_drop, List.length_append, List.length_replicate] at hrest
      obtain rfl : after = [] := List.length_eq_zero_iff.1 (by omega)
      rw [List.append_nil, List.replicate_succ', ← List.append_assoc] at hdrop
      exact (hdrop ▸ List.suffix_append _ ['"']).trans (List.drop_suffix more body)
  case isFalse =>
    split at h
    case h_2 => cases h
    case h_1 n e =>
      obtain rfl : n = body.length := Nat.add_left_cancel (congrArg Lexeme.extra (Except.ok.inj h))
      have := stringBody_quote e
      rwa [List.take_length] at this

/-- No punctuator has a line break. -/
lemma newline_of_mem_punctuators : ∀ p ∈ punctuators, '\n' ∉ p.toList := by
  decide +kernel

/-- A token that goes over the end of a line is a literal and ends with a quote. -/
lemma Spelling.quote_of_newline {kind t} (h : Spelling kind t) (hd : kind ≠ .directive)
    (hn : '\n' ∈ t) : ['"'] <:+ t ∨ ['\''] <:+ t := by
  cases h with
  | @word c w hc hw =>
    have hword : ∀ x ∈ c :: w, Text.continuesWord x = true :=
      List.forall_mem_cons.2 ⟨Text.continuesWord_of_startsWord hc, hw⟩
    exact absurd (hword _ hn) (by decide)
  | @escaped c w hc hw =>
    have hword : ∀ x ∈ c :: w, Text.continuesWord x = true :=
      List.forall_mem_cons.2 ⟨Text.continuesWord_of_startsWord hc, hw⟩
    rcases List.mem_cons.1 hn with hn | hn
    · exact absurd hn (by decide)
    · exact absurd (hword _ hn) (by decide)
  | @number c w hc hw =>
    have hnumber : ∀ x ∈ w.take (numberBody (isHex c w) c w), isSoft x = true ∧ x ≠ '/' :=
      isSoft_of_mem_number
    rw [hw, List.take_length] at hnumber
    rcases List.mem_cons.1 hn with rfl | hn
    · simp at hc
    · exact absurd (hnumber _ hn).1 (by decide)
  | @quoted _ body _ hb =>
    rw [← Nat.zero_add body.length] at hb
    exact .inl ((stringLexeme_quote hb).trans
      ((List.suffix_cons _ _).trans (List.suffix_append _ _)))
  | verbatim _ hb =>
    have hquote := verbatimBody_quote hb
    rw [List.take_length] at hquote
    exact .inl (hquote.trans ((List.suffix_cons _ _).trans (List.suffix_append _ _)))
  | character hb =>
    have hquote := characterBody_quote hb
    rw [List.take_length] at hquote
    exact .inr (hquote.trans (List.suffix_cons _ _))
  | punctuator hp => exact absurd hn (newline_of_mem_punctuators _ hp)
  | directive => exact absurd rfl hd

/-- The end of a line ends a token just as the end of the text does. -/
lemma ends_newline_iff {kind t r r'} : Ends kind t (r ++ '\n' :: r') ↔ Ends kind t r := by
  cases r with
  | nil =>
    refine ⟨fun _ => .nil, fun _ => ?_⟩
    have hword : Text.continuesWord '\n' = false := by decide
    cases kind with
    | identifier | keyword =>
      intro x hx
      cases hx
      exact hword
    | number =>
      unfold Ends
      dsimp only
      rw [List.nil_append, numberBody_cons, if_neg]
      simp [hword]
    | string => exact nofun
    | character => trivial
    | punctuator =>
      intro x hx
      cases hx
      refine ⟨fun hp => newline_of_mem_punctuators _ hp ?_, ?_, ?_⟩
      · simp
      · exact fun h => absurd h.2 (by decide)
      · exact fun h => absurd h.2 (by decide)
    | directive =>
      intro x hx
      cases hx
      rfl
  | cons x r =>
    cases kind with
    | number =>
      have hdigit : (r ++ '\n' :: r').head?.any Char.isDigit = r.head?.any Char.isDigit := by
        cases r <;> rfl
      unfold Ends
      dsimp only
      rw [List.cons_append, numberBody_cons, numberBody_cons, hdigit]
      split <;> simp
    | _ => exact Iff.rfl

/-- What ends a token is a matter of the rest; for a string that is read, only of its first
character. -/
lemma lexeme_of_ends {lineStart kind c w r s} (hends : Ends kind (c :: w) r → Ends kind (c :: w) s)
    (hstring : kind = .string → Ends kind (c :: w) s ∨ r.head? = s.head?)
    (h : lexeme false lineStart c (w ++ r) = .ok ⟨.token kind, w.length⟩) :
    lexeme false lineStart c (w ++ s) = .ok ⟨.token kind, w.length⟩ := by
  have hspelling : Spelling kind (c :: w) := by
    have := (lexeme_spelling h).2
    rwa [List.take_left] at this
  by_cases hk : kind = .string
  · rcases hstring hk with he | hhead
    · exact hspelling.lexeme rfl (lexeme_ne_directive h) he
    · subst hk
      exact lexeme_string_of_head hhead h
  · exact hspelling.lexeme rfl (lexeme_ne_directive h) (hends (ends_of_lexeme h hk))

/-- A token is read before the end of a line just if it is read before the end of the text. -/
lemma lexeme_before_newline {lineStart kind c w r r'} :
    lexeme false lineStart c (w ++ (r ++ '\n' :: r')) = .ok ⟨.token kind, w.length⟩ ↔
      lexeme false lineStart c (w ++ r) = .ok ⟨.token kind, w.length⟩ := by
  constructor
  · refine lexeme_of_ends ends_newline_iff.1 fun _ => ?_
    cases r with
    | nil => exact .inl .nil
    | cons => exact .inr rfl
  · refine lexeme_of_ends ends_newline_iff.2 fun _ => ?_
    cases r with
    | nil => exact .inl (ends_newline_iff.2 .nil)
    | cons => exact .inr rfl

/-- What goes over the end of a text into a last line with a `;` ends with that line feed or `;`. -/
lemma getLast?_take_newline {cs : List Char} {n} (hn : cs.length < n) :
    '\n' ∈ (cs ++ ['\n', ';']).take n ∧
      (((cs ++ ['\n', ';']).take n).getLast? = some '\n' ∨
        ((cs ++ ['\n', ';']).take n).getLast? = some ';') := by
  obtain ⟨k, rfl⟩ := Nat.exists_eq_add_of_lt hn
  rw [Nat.add_assoc, List.take_length_add_append]
  refine ⟨by simp, ?_⟩
  cases k with
  | zero => exact .inl List.getLast?_concat
  | succ k =>
    have hall : cs ++ ['\n', ';'].take (k + 1 + 1) = cs ++ ['\n'] ++ [';'] := by simp
    rw [hall]
    exact .inr List.getLast?_concat

/-- A token of a text with a `;` on a last line is one of the text, or that `;`. -/
lemma le_of_lexeme_newline {lineStart c cs kind n}
    (h : lexeme false lineStart c (cs ++ ['\n', ';']) = .ok ⟨.token kind, n⟩) : n ≤ cs.length := by
  by_contra hlong
  obtain ⟨hmem, hlast⟩ := getLast?_take_newline (Nat.lt_of_not_le hlong)
  have hspelling := (lexeme_spelling h).2
  obtain ⟨x, w, hw⟩ := List.exists_cons_of_ne_nil (List.ne_nil_of_mem hmem)
  rw [hw] at hspelling hmem hlast
  have hquote := hspelling.quote_of_newline (lexeme_ne_directive h) (.tail _ hmem)
  rcases hquote with ⟨v, hv⟩ | ⟨v, hv⟩ <;>
    rw [← List.getLast?_cons_cons (a := c), ← hv, List.getLast?_concat] at hlast <;>
    simp at hlast

/-- A token is read in a text with a `;` on a last line just if it is read in the text. -/
lemma lexeme_token_newline_iff {lineStart c cs kind n} :
    lexeme false lineStart c (cs ++ ['\n', ';']) = .ok ⟨.token kind, n⟩ ↔
      lexeme false lineStart c cs = .ok ⟨.token kind, n⟩ := by
  have hsplit : n ≤ cs.length →
      (lexeme false lineStart c (cs ++ ['\n', ';']) = .ok ⟨.token kind, n⟩ ↔
        lexeme false lineStart c cs = .ok ⟨.token kind, n⟩) := by
    intro hn
    have hiff : lexeme false lineStart c (cs.take n ++ (cs.drop n ++ '\n' :: [';'])) =
        .ok ⟨.token kind, (cs.take n).length⟩ ↔
          lexeme false lineStart c (cs.take n ++ cs.drop n) =
            .ok ⟨.token kind, (cs.take n).length⟩ := lexeme_before_newline
    rwa [List.length_take, Nat.min_eq_left hn, ← List.append_assoc, List.take_append_drop] at hiff
  constructor
  · exact fun h => (hsplit (le_of_lexeme_newline h)).1 h
  · exact fun h => (hsplit (lexeme_spelling h).1).2 h

/-- What follows a line break does not change the filler before it. -/
lemma filler_newline_iff {piece r r'} : Filler (r ++ '\n' :: r') piece ↔ Filler r piece := by
  have hhead : (∀ x ∈ (r ++ '\n' :: r').head?, x = '\n') ↔ ∀ x ∈ r.head?, x = '\n' := by
    cases r <;> simp
  constructor
  · intro h
    cases h with
    | blank hc => exact .blank hc
    | line hbody hr => exact .line hbody (hhead.1 hr)
    | block hfirst => exact .block hfirst
  · intro h
    cases h with
    | blank hc => exact .blank hc
    | line hbody hr => exact .line hbody (hhead.2 hr)
    | block hfirst => exact .block hfirst

/-- White space and comments do not go over the end of a text into a last line with a `;`. -/
lemma le_of_blank_newline {lineStart c cs n}
    (h : lexeme false lineStart c (cs ++ ['\n', ';']) = .ok ⟨.blank, n⟩) : n ≤ cs.length := by
  by_contra hlong
  obtain ⟨hmem, hlast⟩ := getLast?_take_newline (Nat.lt_of_not_le hlong)
  have hfiller := (filler_of_lexeme h).2
  generalize (cs ++ ['\n', ';']).take n = w at *
  cases hfiller with
  | blank => cases hmem
  | line hbody =>
    rcases List.mem_cons.1 hmem with hmem | hmem
    · exact absurd hmem (by decide)
    · exact hbody _ hmem rfl
  | @block body =>
    have hend : '*' :: (body ++ ['*', '/']) = '*' :: (body ++ ['*']) ++ ['/'] := by simp
    rw [hend, List.getLast?_concat] at hlast
    simp at hlast

/-- White space and comments are passed over in a text with a `;` on a last line just as in the
text. -/
lemma lexeme_blank_newline_iff {lineStart c cs n} :
    lexeme false lineStart c (cs ++ ['\n', ';']) = .ok ⟨.blank, n⟩ ↔
      lexeme false lineStart c cs = .ok ⟨.blank, n⟩ := by
  have hread : ∀ {r}, n ≤ cs.length → Filler (cs.drop n ++ r) (c :: cs.take n) →
      lexeme false lineStart c (cs ++ r) = .ok ⟨.blank, n⟩ := by
    intro r hn hfiller
    have hl : lexeme false lineStart c (cs.take n ++ (cs.drop n ++ r)) =
        .ok ⟨.blank, (cs.take n).length⟩ := hfiller.lexeme
    rwa [← List.append_assoc, List.take_append_drop, List.length_take, Nat.min_eq_left hn] at hl
  constructor
  · intro h
    have hn := le_of_blank_newline h
    have hfiller := (filler_of_lexeme h).2
    rw [List.take_append_of_le_length hn, List.drop_append_of_le_length hn,
      filler_newline_iff] at hfiller
    rw [← List.append_nil cs]
    exact hread hn (by rwa [List.append_nil])
  · intro h
    obtain ⟨hn, hfiller⟩ := filler_of_lexeme h
    exact hread hn (filler_newline_iff.2 hfiller)

/-- The `;` on a line of its own, which stands at byte `offset`. -/
def semicolonAt (offset : Nat) : Token :=
  ⟨.punctuator, ";", offset, true⟩

/-- White space or a comment is passed over. -/
lemma tokensFrom_blank {directives p c cs k}
    (hl : lexeme directives p.lineStart c cs = .ok ⟨.blank, k⟩) :
    tokensFrom directives p 0 (c :: cs) =
      tokensFrom directives
        ⟨p.lineStart || c == '\n', true, p.offset + Text.byteLength (c :: cs.take k)⟩ 0
        (cs.drop k) := by
  rw [tokensFrom, hl]
  dsimp only
  rw [tokensFrom_skip]

/-- A token comes before the tokens of the rest. -/
lemma tokensFrom_token_iff {directives p c cs kind k us}
    (hl : lexeme directives p.lineStart c cs = .ok ⟨.token kind, k⟩) :
    tokensFrom directives p 0 (c :: cs) = .ok us ↔
      ∃ ts, us = ⟨kind, String.ofList (c :: cs.take k), p.offset, p.spaced⟩ :: ts ∧
        tokensFrom directives ⟨false, false, p.offset + Text.byteLength (c :: cs.take k)⟩ 0
          (cs.drop k) = .ok ts := by
  rw [tokensFrom, hl]
  dsimp only
  rw [tokensFrom_skip]
  constructor
  · intro h
    split at h
    case h_1 ts hts =>
      cases h
      exact ⟨ts, rfl, hts⟩
    case h_2 => cases h
  · rintro ⟨ts, rfl, hts⟩
    rw [hts]

/-- The tokens of a text with a `;` on a last line are those of the text and that `;`. -/
lemma tokensFrom_newline {p cs us} :
    tokensFrom false p 0 (cs ++ ['\n', ';']) = .ok us ↔
      ∃ ts, tokensFrom false p 0 cs = .ok ts ∧
        us = ts ++ [semicolonAt (p.offset + Text.byteLength cs + 1)] := by
  induction hn : cs.length using Nat.strongRecOn generalizing p cs us with
  | ind n ih =>
    cases cs with
    | nil =>
      have hblank : ∀ l, lexeme false l '\n' [';'] = .ok ⟨.blank, 0⟩ := fun _ => rfl
      have hread : tokensFrom false p 0 ['\n', ';'] = .ok [semicolonAt (p.offset + 1)] := by
        rw [tokensFrom_blank (hblank _)]
        exact (tokensFrom_token_iff (lexeme_of_last (.inl rfl))).2 ⟨[], rfl, rfl⟩
      rw [List.nil_append, hread]
      simp [tokensFrom, Text.byteLength, eq_comm]
    | cons c cs =>
      have hlt : ∀ k, (cs.drop k).length < n := by
        intro k
        simp only [List.length_drop, ← hn, List.length_cons]
        omega
      have hplace : ∀ k, p.offset + Text.byteLength (c :: cs.take k) + Text.byteLength (cs.drop k) =
          p.offset + Text.byteLength (c :: cs) := by
        intro k
        rw [Nat.add_assoc, ← Text.byteLength_append, List.cons_append, List.take_append_drop]
      rw [List.cons_append]
      cases hl : lexeme false p.lineStart c cs with
      | error e =>
        have hstuck : ∀ x, lexeme false p.lineStart c (cs ++ ['\n', ';']) ≠ .ok x := by
          rintro ⟨_ | kind, k⟩ hx
          · rw [lexeme_blank_newline_iff, hl] at hx
            cases hx
          · rw [lexeme_token_newline_iff, hl] at hx
            cases hx
        rw [tokensFrom, tokensFrom, hl]
        split
        case h_1 => simp
        case h_2 hx => exact absurd hx (hstuck _)
        case h_3 hx => exact absurd hx (hstuck _)
      | ok l =>
        obtain ⟨shape | kind, k⟩ := l
        · have hk := (filler_of_lexeme hl).1
          rw [tokensFrom_blank hl, tokensFrom_blank (lexeme_blank_newline_iff.2 hl),
            List.take_append_of_le_length hk, List.drop_append_of_le_length hk, ih _ (hlt k) rfl]
          dsimp only
          rw [hplace]
        · have hk := (lexeme_spelling hl).1
          rw [tokensFrom_token_iff (lexeme_token_newline_iff.2 hl),
            List.take_append_of_le_length hk, List.drop_append_of_le_length hk]
          constructor
          · rintro ⟨vs, rfl, hvs⟩
            obtain ⟨ts, hts, rfl⟩ := (ih _ (hlt k) rfl).1 hvs
            refine ⟨_, (tokensFrom_token_iff hl).2 ⟨ts, rfl, hts⟩, ?_⟩
            rw [← hplace k, List.cons_append]
          · rintro ⟨ts, hts, rfl⟩
            obtain ⟨vs, rfl, hvs⟩ := (tokensFrom_token_iff hl).1 hts
            refine ⟨_, List.cons_append, (ih _ (hlt k) rfl).2 ⟨vs, hvs, ?_⟩⟩
            rw [← hplace k]

/-- A text with a `;` after it on a line of its own. -/
def terminated (text : String) : String :=
  text ++ "\n;"

/-- A `;` on a line of its own is one token more. -/
lemma tokenize_terminated {text us} :
    tokenize false (terminated text) = .ok us ↔
      ∃ ts, tokenize false text = .ok ts ∧ us = ts ++ [semicolonAt (text.utf8ByteSize + 1)] := by
  have hchars : (terminated text).toList = text.toList ++ ['\n', ';'] := by
    rw [terminated, String.toList_append]
    rfl
  rw [tokenize, hchars, tokensFrom_newline, Text.byteLength_toList]
  simp only [tokenize, Position.start, Nat.zero_add]

end Fragment

end SharpSmith
