import SharpSmith.Build.Body
import SharpSmith.Proofs.LastToken
import SharpSmith.Proofs.StatementGrammar

/-!
# Lines of bodies

A line of a body gets a `;` at its end unless its text ends with one. It is read as the statement
that it is also with that `;`: a statement that ends with a brace may have one after it, and a
comment that goes on to the end of the line takes it up. Only where a `;` is the last token of the
line and a comment that is closed stands after it, the line gets a second `;` and is no single
statement any more.
-/

namespace SharpSmith.Statement

open Fragment

/-- Tokens the last of which is a `;` or a closing brace. -/
def Closed (ts : List Token) : Prop :=
  ∃ us t, ts = us ++ [t] ∧ (t.is ";" = true ∨ t.is "\x7d" = true)

/-- Tokens before such an end do not change it. -/
lemma Closed.append {ts : List Token} (us : List Token) (h : Closed ts) : Closed (us ++ ts) := by
  obtain ⟨vs, t, rfl, ht⟩ := h
  exact ⟨us ++ vs, t, by rw [List.append_assoc], ht⟩

/-- A token before such an end does not change it. -/
lemma Closed.cons {ts : List Token} (t : Token) (h : Closed ts) : Closed (t :: ts) :=
  h.append [t]

/-- A block ends with a brace. -/
lemma closed_of_group {g} (h : Group "\x7b" g) : Closed g := by
  cases h with
  | @mk o ts c hi _ hc _ =>
    refine ⟨o :: ts, c, rfl, .inr ?_⟩
    simp only [Token.is, Bool.and_eq_true, beq_iff_eq] at hi
    rw [hi.2, Token.closes?] at hc
    split at hc
    case isTrue => exact absurd hc (by decide)
    split at hc
    case isTrue => exact absurd hc (by decide)
    split at hc
    case isTrue hbrace => exact hbrace
    case isFalse => cases hc

/-- Some `catch` clauses end with a brace. -/
lemma closed_of_catches {cs} (h : Catches cs) : cs = [] ∨ Closed cs := by
  induction h with
  | nil => exact .inl rfl
  | @cons c cs hc _ ih =>
    refine .inr ?_
    rcases ih with rfl | ih
    · cases hc with
      | mk _ _ _ hbody =>
        rw [List.append_nil]
        exact (closed_of_group hbody).append _
    · exact ih.append c

/-- A statement ends with a `;` or a brace. -/
lemma Stmt.closed {s} (h : Stmt s) : Closed s := by
  induction h with
  | basic h =>
    cases h with
    | block hbody => exact closed_of_group hbody
    | empty ht => exact ⟨[], _, rfl, .inl ht⟩
    | switch _ _ hbody => exact (closed_of_group hbody).append _
    | @handled t body catches last _ _ hcatches hlast hne =>
      rcases hlast with rfl | ⟨_, hbody⟩
      · rw [List.append_nil] at *
        exact ((closed_of_catches hcatches).resolve_left hne).append _
      · exact ((closed_of_group hbody).cons _).append _
    | mode _ hbody => exact (closed_of_group hbody).cons _
    | simple _ _ _ _ ht => exact ⟨_, _, rfl, .inl ht⟩
  | ifThen _ _ _ ih => exact ih.append _
  | ifElse _ _ _ _ _ _ ih => exact ((ih.cons _).append _).append _
  | loop _ _ _ ih => exact ih.append _
  | doWhile _ _ _ _ he => exact ⟨_, _, rfl, .inl he⟩

/-- The tokens that hold a statement end with a `;` or a brace. -/
lemma HoldsOnly.closed {used ts} (hs : Stmt used) (h : HoldsOnly used ts) : Closed ts := by
  rcases h with rfl | ⟨t, rfl, ht, -⟩
  · exact hs.closed
  · exact ⟨used, t, rfl, .inl ht⟩

/-- A `;` after a statement is too much, unless it is alone and a brace stands before it. -/
lemma only_error {size used t more} (hs : Stmt used) (ht : t.is ";" = true)
    (h : more = [] → used.getLast?.any (·.is "\x7d") = false) :
    only size (used ++ t :: more) =
      .error ⟨.severalStatements, ⟨t.offset, size - t.offset⟩⟩ := by
  obtain ⟨closed, hshape⟩ := hs.exists_shape
  have hword : ∀ word, startsWith word (t :: more) = false := by
    intro word
    simp only [Token.is, Bool.and_eq_true, beq_iff_eq] at ht
    simp [startsWith, Token.isKeyword, ht]
  have hscan : afterStatement size (used ++ t :: more).length (used ++ t :: more) =
      .ok (t :: more) :=
    hshape.afterStatement (by simp) ⟨hword _, hword _, fun _ => hword _⟩
  unfold only
  rw [if_neg (by simp), hscan, ok_bind, List.length_append, Nat.add_sub_cancel, List.take_left]
  cases more with
  | nil => simp [h rfl]; rfl
  | cons u more => rfl

/-- The last token of a line is a `;`, and when white space is cut off its end the line ends with a
comment that is closed. -/
def HidesSemicolon (line : String) : Prop :=
  ∃ ts t code gap body, tokenize false line = .ok (ts ++ [t]) ∧ t.is ";" = true ∧
    t.offset = Text.byteLength code ∧
    Text.trimEnd line.toList = code ++ ';' :: (gap ++ '/' :: '*' :: (body ++ ['*', '/'])) ∧
    Gap ('/' :: '*' :: (body ++ ['*', '/'])) gap ∧ ¬['*', '/'] <:+: body ++ ['*']

/-- A comment that is closed may stand before anything. -/
lemma gap_of_block {rest gap body : List Char} (h : Gap ('/' :: '*' :: (body ++ ['*', '/'])) gap)
    (hfirst : ¬['*', '/'] <:+: body ++ ['*']) :
    Gap rest (gap ++ '/' :: '*' :: (body ++ ['*', '/'])) := by
  have hgap : Gap ('/' :: '*' :: (body ++ ['*', '/']) ++ rest) gap := h.of_head rfl
  exact hgap.append (Filler.block hfirst).gap

/-- A `;` is a token, also after white space and comments. -/
lemma tokensFrom_semicolon {p gap} (h : Gap [';'] gap) :
    ∃ semicolon, tokensFrom false p 0 (gap ++ [';']) = .ok [semicolon] ∧
      semicolon.is ";" = true := by
  obtain ⟨lineStart, spaced, e⟩ := h.tokensFrom false p
  have hl : lexeme false lineStart ';' ([] ++ []) = .ok ⟨.token .punctuator, 0⟩ :=
    lexeme_of_last (.inl rfl)
  rw [e]
  exact ⟨_, tokensFrom_token (w := []) hl rfl, rfl⟩

/-- White space and comments hold no token. -/
lemma tokensFrom_gap {p gap} (h : Gap [] gap) : tokensFrom false p 0 gap = .ok [] := by
  obtain ⟨lineStart, spaced, e⟩ := h.tokensFrom false p
  rwa [List.append_nil] at e

/-- What is left of a line whose last token is the character `x` when white space is cut off its
end; and the tokens of the line when it goes on with something else after this token. -/
lemma exists_trimmed {x line ts t} (hx : x = ';' ∨ x = '\x7d')
    (h : tokenize false line = .ok (ts ++ [t])) (ht : t.text.toList = [x]) :
    ∃ code gap, Text.trimEnd line.toList = code ++ x :: gap ∧ Trimmed gap ∧
      t.offset = Text.byteLength code ∧
      ∀ r us, tokensFrom false ⟨false, false, t.span.finish⟩ 0 r = .ok us →
        tokenize false (String.ofList (code ++ x :: r)) = .ok (ts ++ t :: us) := by
  obtain ⟨code, gap, e, hgap, hoffset, htokens⟩ := hasLast_of_tokensFrom hx h ht
  refine ⟨code, Text.trimEnd gap, ?_, hgap.trimEnd, ?_, fun r us hus => ?_⟩
  · have hb : Text.isBlank x = false := by rcases hx with rfl | rfl <;> decide
    rw [e, List.append_cons, Text.trimEnd_append]
    split
    case isTrue hnil => rw [hnil, Text.trimEnd_concat _ hb]
    case isFalse => exact (List.append_cons ..).symm
  · rw [hoffset]
    exact Nat.zero_add _
  · rw [tokenize, String.toList_ofList]
    exact htokens r us hus

/-- What is read of a text depends on its tokens only. -/
lemma parse_of_tokens {line text s ts} (h : parse line = .ok s)
    (hts : tokenize false line = .ok ts) (htext : tokenize false text = .ok ts) :
    parse text = .ok s := by
  obtain ⟨all, used, hall, hb, hs, hholds, rfl⟩ := parse_eq_ok_iff.1 h
  cases hts.symm.trans hall
  exact parse_eq_ok_iff.2 ⟨ts, used, htext, hb, hs, hholds, rfl⟩

/-- A text that holds a statement with a brace last may have a `;` put after its tokens. -/
lemma parse_of_brace {line text s ts t semicolon} (h : parse line = .ok s)
    (hts : tokenize false line = .ok (ts ++ [t])) (ht : t.is "\x7d" = true)
    (htext : tokenize false text = .ok (ts ++ t :: [semicolon]))
    (hsemicolon : semicolon.is ";" = true) : parse text = .ok s := by
  obtain ⟨all, used, hall, hb, hs, hholds, rfl⟩ := parse_eq_ok_iff.1 h
  cases hts.symm.trans hall
  have hused : used = ts ++ [t] := by
    rcases hholds with e | ⟨u, e, hu, -⟩
    · exact e.symm
    · -- the line does not have a `;` at its end already
      obtain rfl : t = u := (List.cons.inj (List.append_inj' e rfl).2).1
      simp only [Token.is, Bool.and_eq_true, beq_iff_eq] at ht hu
      exact absurd (ht.2.symm.trans hu.2) (by decide)
  subst hused
  obtain ⟨ho, hc⟩ := of_is_semicolon hsemicolon
  refine parse_eq_ok_iff.2 ⟨_, _, htext, ?_, hs, .inr ⟨semicolon, ?_, hsemicolon, ?_⟩, rfl⟩
  · rw [List.append_cons]
    exact hb.append (.token ho hc .nil)
  · rw [List.append_cons]
  · simp [ht]

/-- A text that holds a statement with a `;` last may not have another `;` put after its tokens. -/
lemma parse_of_semicolons {line text s ts t semicolon} (h : parse line = .ok s)
    (hts : tokenize false line = .ok (ts ++ [t])) (ht : t.is ";" = true)
    (htext : tokenize false text = .ok (ts ++ t :: [semicolon]))
    (hsemicolon : semicolon.is ";" = true) :
    ∃ span, parse text = .error ⟨.statement, .severalStatements, span⟩ := by
  obtain ⟨all, used, hall, hb, hs, hholds, rfl⟩ := parse_eq_ok_iff.1 h
  cases hts.symm.trans hall
  obtain ⟨ho, hc⟩ := of_is_semicolon hsemicolon
  have hbalanced : balancedTokens text = .ok (ts ++ t :: [semicolon]) := by
    refine balancedTokens_eq_ok_iff.2 ⟨htext, ?_⟩
    rw [List.append_cons]
    exact hb.append (.token ho hc .nil)
  have honly : ∃ span, only text.utf8ByteSize (ts ++ t :: [semicolon]) =
      .error ⟨.severalStatements, span⟩ := by
    rcases hholds with rfl | ⟨u, e, -, -⟩
    · have hlast : (ts ++ [t]).getLast?.any (·.is "\x7d") = false := by
        simp only [Token.is, Bool.and_eq_true, beq_iff_eq] at ht
        simp [Token.is, ht]
      rw [List.append_cons]
      exact ⟨_, only_error hs hsemicolon fun _ => hlast⟩
    · obtain ⟨rfl, -⟩ := List.append_inj' e rfl
      exact ⟨_, only_error hs ht fun hmore => by cases hmore⟩
  obtain ⟨span, honly⟩ := honly
  refine ⟨span, ?_⟩
  unfold parse
  rw [hbalanced, ok_bind, honly]
  rfl

/-- The last token of a line that holds a statement is a `;` or a brace. -/
lemma exists_last_of_parse {line s} (h : parse line = .ok s) :
    ∃ ts t, tokenize false line = .ok (ts ++ [t]) ∧ (t.is ";" = true ∨ t.is "\x7d" = true) := by
  obtain ⟨all, used, hall, -, hs, hholds, -⟩ := parse_eq_ok_iff.1 h
  obtain ⟨ts, t, rfl, ht⟩ := hholds.closed hs
  exact ⟨ts, t, hall, ht⟩

/-- A line that ends with no `;` gets one. -/
lemma parseLine_of_getLast? {line cs} (e : Text.trimEnd line.toList = cs)
    (h : cs.getLast? ≠ some ';') : parseLine line = parse (String.ofList (cs ++ [';'])) := by
  unfold parseLine
  rw [e]
  exact if_neg h

/-- A text that ends with a closed comment ends with `/`. -/
lemma getLast?_block {code gap body : List Char} :
    (code ++ ';' :: (gap ++ '/' :: '*' :: (body ++ ['*', '/']))).getLast? = some '/' := by
  have hends : code ++ ';' :: (gap ++ '/' :: '*' :: (body ++ ['*', '/'])) =
      code ++ ';' :: (gap ++ '/' :: '*' :: (body ++ ['*'])) ++ ['/'] := by
    simp
  rw [hends, List.getLast?_concat]

/-- A line that holds a statement and hides its `;` is no statement when it gets another one. -/
lemma parseLine_of_hides {line s} (h : parse line = .ok s) (hhides : HidesSemicolon line) :
    ∃ span, parseLine line = .error ⟨.statement, .severalStatements, span⟩ := by
  obtain ⟨ts, t, code, gap, body, hts, ht, hoffset, htrim, hgap, hfirst⟩ := hhides
  have htext : t.text.toList = [';'] := by
    simp only [Token.is, Bool.and_eq_true, beq_iff_eq] at ht
    rw [ht.2]
    rfl
  obtain ⟨code', gap', htrim', -, hoffset', hgoes⟩ := exists_trimmed (.inl rfl) hts htext
  obtain ⟨rfl, rfl⟩ := Text.append_inj_of_byteLength (htrim'.symm.trans htrim)
    (hoffset'.symm.trans hoffset)
  have hlast : (Text.trimEnd line.toList).getLast? ≠ some ';' := by
    rw [htrim, getLast?_block]
    decide
  obtain ⟨semicolon, htokens, hsemicolon⟩ := tokensFrom_semicolon (gap_of_block hgap hfirst)
  rw [parseLine_of_getLast? rfl hlast, htrim, List.append_assoc, List.cons_append]
  exact parse_of_semicolons h hts ht (hgoes _ _ htokens) hsemicolon

/-- A line that holds a statement and does not hide its `;` is read as that statement. -/
lemma parseLine_of_not_hides {line s} (h : parse line = .ok s) (hhides : ¬HidesSemicolon line) :
    parseLine line = .ok s := by
  obtain ⟨ts, t, hts, ht⟩ := exists_last_of_parse h
  obtain ⟨x, hx, htext⟩ : ∃ x, (x = ';' ∧ t.is ";" = true ∨ x = '\x7d' ∧ t.is "\x7d" = true) ∧
      t.text.toList = [x] := by
    simp only [Token.is, Bool.and_eq_true, beq_iff_eq] at ht ⊢
    rcases ht with ht | ht
    · exact ⟨';', .inl ⟨rfl, ht⟩, by rw [ht.2]; rfl⟩
    · exact ⟨'\x7d', .inr ⟨rfl, ht⟩, by rw [ht.2]; rfl⟩
  by_cases hlast : (Text.trimEnd line.toList).getLast? = some ';'
  · unfold parseLine
    rw [← h]
    exact if_pos hlast
  rw [parseLine_of_getLast? rfl hlast]
  obtain ⟨code, gap, htrim, hgap, hoffset, hgoes⟩ :=
    exists_trimmed (hx.imp And.left And.left) hts htext
  rw [htrim] at hlast ⊢
  rw [List.append_assoc, List.cons_append]
  -- a `;` that stands after a brace and what follows it is a token
  have hbrace : Gap [';'] gap → t.is "\x7d" = true →
      parse (String.ofList (code ++ x :: (gap ++ [';']))) = .ok s := by
    intro hgap ht
    obtain ⟨semicolon, htokens, hsemicolon⟩ := tokensFrom_semicolon hgap
    exact parse_of_brace h hts ht (hgoes _ _ htokens) hsemicolon
  cases hgap with
  | nil =>
    rcases hx with ⟨rfl, -⟩ | ⟨rfl, ht⟩
    · exact absurd (by simp) hlast
    · exact hbrace .nil ht
  | @line gap body hgap hbody =>
    -- a `;` that stands in a comment is none
    have hcomment : Filler [] ('/' :: '/' :: (body ++ [';'])) :=
      .line (List.forall_mem_append.2 ⟨hbody, by simp⟩) (by simp)
    have hline : Gap [] (gap ++ '/' :: '/' :: (body ++ [';'])) :=
      Gap.append (by rw [List.append_nil]; exact hgap.of_head rfl) hcomment.gap
    rw [List.append_assoc, List.cons_append, List.cons_append]
    exact parse_of_tokens h hts (hgoes _ _ (tokensFrom_gap hline))
  | @block gap body hgap hfirst =>
    rcases hx with ⟨rfl, ht⟩ | ⟨rfl, ht⟩
    · exact absurd ⟨ts, t, code, gap, body, hts, ht, hoffset, htrim, hgap, hfirst⟩ hhides
    · exact hbrace (gap_of_block hgap hfirst) ht

end SharpSmith.Statement

namespace SharpSmith.Build

open Fragment Statement

/-- A line that is read as a statement is added to a body as that statement, unless it hides its
`;`; then it is refused as more than one statement. -/
theorem add_line_agrees_iff {line s} (body : List Statement) (h : Statement.parse line = .ok s) :
    (BodyStep.addLine line body = .done (body ++ [s]) ↔ ¬HidesSemicolon line) ∧
      (HidesSemicolon line → ∃ span,
        BodyStep.addLine line body =
          .fail body (.malformed ⟨.statement, .severalStatements, span⟩)) := by
  have hrefused : HidesSemicolon line → ∃ span,
      BodyStep.addLine line body =
        .fail body (.malformed ⟨.statement, .severalStatements, span⟩) := by
    intro hhides
    obtain ⟨span, hspan⟩ := parseLine_of_hides h hhides
    refine ⟨span, ?_⟩
    unfold BodyStep.addLine
    rw [hspan]
  refine ⟨⟨fun hadded hhides => ?_, fun hhides => ?_⟩, hrefused⟩
  · obtain ⟨span, hspan⟩ := hrefused hhides
    rw [hadded] at hspan
    cases congrArg Build.Run.result hspan
  · unfold BodyStep.addLine
    rw [parseLine_of_not_hides h hhides]

/-- A statement with a comment after it. -/
def remarked : String :=
  "x = 1; /* c */"

/-- The statement with a comment after it is read. -/
lemma parse_remarked : Statement.parse remarked = .ok ⟨.simple, "x = 1;"⟩ := by
  decide +kernel

/-- The comment after the statement hides its `;`. -/
lemma hidesSemicolon_remarked : HidesSemicolon remarked := by
  refine ⟨[⟨.identifier, "x", 0, false⟩, ⟨.punctuator, "=", 2, true⟩, ⟨.number, "1", 4, true⟩],
    ⟨.punctuator, ";", 5, false⟩, "x = 1".toList, " ".toList, " c ".toList, ?_, ?_, ?_, ?_, ?_, ?_⟩
  · decide +kernel
  · decide
  · decide
  · decide
  · exact (Filler.blank (by decide)).gap
  · decide

/-- A comment that is closed hides a `;`, and one up to the end of the line does not. -/
theorem add_line_agrees_remarked :
    (∃ span, BodyStep.addLine remarked [] =
      .fail [] (.malformed ⟨.statement, .severalStatements, span⟩)) ∧
    BodyStep.addLine "x = 1; // c" [] = .done [⟨.simple, "x = 1;"⟩] := by
  have hline : Statement.parse "x = 1; // c" = .ok ⟨.simple, "x = 1;"⟩ := by decide +kernel
  refine ⟨(add_line_agrees_iff [] parse_remarked).2 hidesSemicolon_remarked,
    (add_line_agrees_iff [] hline).1.2 ?_⟩
  rintro ⟨_, _, code, gap, body, -, -, -, htrim, -, -⟩
  have hlast := congrArg List.getLast? htrim
  rw [getLast?_block] at hlast
  revert hlast
  decide

/-- Not every line that is read as a statement is added as that statement. -/
theorem line_not_added :
    ¬∀ line s body, Statement.parse line = .ok s →
      BodyStep.addLine line body = .done (body ++ [s]) := by
  intro h
  have hresult := congrArg Build.Run.result (h remarked _ [] parse_remarked)
  revert hresult
  decide +kernel

end SharpSmith.Build
