import Mathlib.Data.List.DropRight
import SharpSmith.Proofs.Spacing
import SharpSmith.Proofs.Tiling

/-!
# What stands after the last token

A token is read up to where it ends, which at most two characters after it decide. So two texts that
are the same up to a `;` or a brace have the same tokens so far, whatever comes after it
(`hasLast_of_tokensFrom`). What does come after the last token of a text is white space and
comments, and of these only a comment is left when white space is cut off the end (`Gap.trimEnd`).
-/

namespace SharpSmith

namespace Text

/-- Characters of a class that are read alone are followed by one outside of it. -/
lemma stops_of_takeWhile {p : Char → Bool} {w r : List Char} (hw : ∀ x ∈ w, p x = true)
    (h : ((w ++ r).takeWhile p).length = w.length) : ∀ x ∈ r.head?, p x = false := by
  rw [List.takeWhile_append_of_pos hw, List.length_append, Nat.add_eq_left,
    List.length_eq_zero_iff] at h
  intro x hx
  cases r with
  | nil => cases hx
  | cons y r =>
    cases hx
    by_contra hp
    rw [List.takeWhile_cons_of_pos (by simpa using hp)] at h
    cases h

/-- Only what stands before white space at the end is left of a text. -/
lemma trimEnd_append (cs ds : List Char) :
    trimEnd (cs ++ ds) = if trimEnd ds = [] then trimEnd cs else cs ++ trimEnd ds := by
  unfold trimEnd
  rw [List.reverse_append, List.dropWhile_append]
  simp only [List.isEmpty_iff, List.reverse_eq_nil_iff]
  split
  case isTrue => rfl
  case isFalse => rw [List.reverse_append, List.reverse_reverse]

/-- A text that ends with no white space is left as it is. -/
lemma trimEnd_concat (cs : List Char) {x} (hx : isBlank x = false) :
    trimEnd (cs ++ [x]) = cs ++ [x] :=
  List.rdropWhile_concat_neg isBlank cs x (by simp [hx])

/-- What stands after the same number of bytes of a text stands at the same place. -/
lemma append_inj_of_byteLength {a b c d : List Char} {x y} (e : a ++ x :: c = b ++ y :: d)
    (h : byteLength a = byteLength b) : a = b ∧ c = d := by
  induction a generalizing b with
  | nil =>
    cases b with
    | nil => exact ⟨rfl, (List.cons.inj e).2⟩
    | cons q b =>
      have := q.utf8Size_pos
      simp only [byteLength] at h
      omega
  | cons p a ih =>
    cases b with
    | nil =>
      have := p.utf8Size_pos
      simp only [byteLength] at h
      omega
    | cons q b =>
      obtain ⟨rfl, etail⟩ := List.cons.inj e
      obtain ⟨rfl, rfl⟩ := ih etail (Nat.add_left_cancel h)
      exact ⟨rfl, rfl⟩

end Text

namespace Fragment

/-- Two rests look the same to a token before them: they start with the same character, and with the
same two if the first is a point. -/
def LooksLike (r r' : List Char) : Prop :=
  r.head? = r'.head? ∧ (r.head? = some '.' → r.tail.head? = r'.tail.head?)

/-- A token that ends before a rest ends before one that looks the same. -/
lemma Ends.of_looksLike {kind t r r'} (h : Ends kind t r) (hr : LooksLike r r') :
    Ends kind t r' := by
  obtain ⟨hhead, hpoint⟩ := hr
  cases kind with
  | identifier | keyword | string | punctuator | directive =>
    unfold Ends at *
    rwa [← hhead]
  | character => trivial
  | number =>
    unfold Ends at *
    dsimp only at *
    cases r' with
    | nil => rfl
    | cons x r' =>
      cases r with
      | nil => cases hhead
      | cons y r =>
        cases hhead
        rw [numberBody_cons] at *
        split at h
        case isTrue => cases h
        case isFalse hstop =>
          rw [if_neg]
          intro hgoes
          apply hstop
          simp only [Bool.or_eq_true, Bool.and_eq_true, beq_iff_eq] at hgoes ⊢
          refine hgoes.imp id fun hp => ⟨hp.1, ?_⟩
          have hsame : r.head? = r'.head? := hpoint (by rw [hp.1]; rfl)
          rw [hsame]
          exact hp.2

/-- A verbatim string goes on after a quote that is written twice. -/
lemma verbatimBody_stops {cs n} (h : verbatimBody cs = (n, true)) :
    (cs.drop n).head? ≠ some '"' := by
  induction cs using verbatimBody.induct generalizing n with
  | case1 => simp [verbatimBody] at h
  | case2 cs ih =>
    cases e : verbatimBody cs with
    | mk m closed =>
      rw [verbatimBody, e] at h
      cases h
      exact ih e
  | case3 cs h1 =>
    rw [verbatimBody, if_pos rfl] at h
    · cases h
      intro hq
      cases cs with
      | nil => cases hq
      | cons x cs =>
        cases hq
        exact h1 cs rfl rfl
    · exact h1
  | case4 c cs h1 hq ih =>
    cases e : verbatimBody cs with
    | mk m closed =>
      rw [verbatimBody_cons hq, e] at h
      cases h
      exact ih e

/-- A token that is read, but for a string, ends before what follows it. -/
lemma ends_of_lexeme {lineStart kind c w r}
    (h : lexeme false lineStart c (w ++ r) = .ok ⟨.token kind, w.length⟩) (hk : kind ≠ .string) :
    Ends kind (c :: w) r := by
  have hspelling : Spelling kind (c :: w) := by
    have := (lexeme_spelling h).2
    rwa [List.take_left] at this
  by_contra he
  have hdirective := lexeme_ne_directive h
  -- a solidus before another or a star is no token
  have hcomment : c :: w = ['/'] → ∀ x ∈ r.head?, ¬(x = '/' ∨ x = '*') := by
    rintro hc x hx hxs
    obtain ⟨rfl, rfl⟩ := List.cons.inj hc
    cases r with
    | nil => cases hx
    | cons y r =>
      cases hx
      have hb : Text.isBlank '/' = false := by decide
      rcases hxs with rfl | rfl
      · simp [lexeme, hb] at h
      · rw [List.nil_append, lexeme, if_neg (by simp [hb]), if_neg (by simp), if_pos (by simp)] at h
        split at h <;> cases h
  have hcontra : kind = .punctuator ∨ kind = .number →
      (kind = .number → ∀ x ∈ r.head?, Text.continuesWord x = false) → False := by
    intro hkind hword
    obtain ⟨kind', n, hl, hne⟩ :=
      lexeme_of_not_ends false lineStart hspelling he hkind hcomment hword
    rw [h] at hl
    cases hl
    exact hne ⟨rfl, rfl⟩
  generalize ht : c :: w = t at hspelling
  cases hspelling with
  | @word c' w' hc hw =>
    cases ht
    rw [lexeme_of_startsWord hc] at h
    have hlen := congrArg Lexeme.extra (Except.ok.inj h)
    have hstops := Text.stops_of_takeWhile hw hlen
    rcases wordKind_or (c :: w) with e | e <;> rw [e] at he <;> exact he hstops
  | @escaped c' w' hc hw =>
    cases ht
    rw [List.cons_append, lexeme_marked (.inl rfl), markedLexeme_word hc] at h
    have hlen := congrArg Lexeme.extra (Except.ok.inj h)
    refine he (Text.stops_of_takeWhile (List.forall_mem_cons.2 ⟨?_, hw⟩) hlen)
    exact Text.continuesWord_of_startsWord hc
  | @number c' w' hc hw =>
    cases ht
    refine hcontra (.inr rfl) fun _ => ?_
    rw [lexeme_of_number (startsNumber_append hc)] at h
    have hlen : numberBody (isHex c (w ++ r)) c (w ++ r) = w.length :=
      congrArg Lexeme.extra (Except.ok.inj h)
    have hstops : ∀ x ∈ ((w ++ r).drop (numberBody (isHex c (w ++ r)) c (w ++ r))).head?,
        Text.continuesWord x = false := numberBody_stops
    rwa [hlen, List.drop_left] at hstops
  | @punctuator p hp => exact hcontra (.inl rfl) fun hkind => by cases hkind
  | character => exact he trivial
  | directive => exact hdirective rfl
  | quoted | verbatim => exact hk rfl

/-- A string is closed before all rests that start with the same character. -/
lemma stringLexeme_of_head {lead body r r'} (hr : r.head? = r'.head?)
    (h : stringLexeme lead (body ++ r) = .ok ⟨.token .string, lead + body.length⟩) :
    stringLexeme lead (body ++ r') = .ok ⟨.token .string, lead + body.length⟩ := by
  obtain ⟨n, _, -, hn, hquote, happ⟩ := stringLexeme_take h
  obtain rfl : n = body.length := by omega
  rw [List.take_left] at hquote happ
  rw [List.drop_left, hr] at hquote
  exact happ lead r' hquote

/-- A verbatim string is not followed by a quote. -/
lemma verbatimLexeme_stops {lead body r}
    (h : verbatimLexeme lead (body ++ r) = .ok ⟨.token .string, lead + body.length⟩) :
    r.head? ≠ some '"' := by
  unfold verbatimLexeme at h
  split at h
  case h_2 => cases h
  case h_1 n e =>
    have hn : lead + n = lead + body.length := congrArg Lexeme.extra (Except.ok.inj h)
    have hstops := verbatimBody_stops e
    rwa [Nat.add_left_cancel hn, List.drop_left] at hstops

/-- A string that is read is read before all rests that start with the same character. -/
lemma lexeme_string_of_head {lineStart c w r r'} (hr : r.head? = r'.head?)
    (h : lexeme false lineStart c (w ++ r) = .ok ⟨.token .string, w.length⟩) :
    lexeme false lineStart c (w ++ r') = .ok ⟨.token .string, w.length⟩ := by
  have hspelling : Spelling .string (c :: w) := by
    have := (lexeme_spelling h).2
    rwa [List.take_left] at this
  have hends : r.head? ≠ some '"' →
      lexeme false lineStart c (w ++ r') = .ok ⟨.token .string, w.length⟩ := by
    intro hq
    exact hspelling.lexeme rfl nofun (show r'.head? ≠ some '"' by rwa [← hr])
  generalize ht : c :: w = t at hspelling
  generalize hk : TokenKind.string = kind at hspelling
  cases hspelling with
  | @word c' w' => rcases wordKind_or (c' :: w') with e | e <;> rw [e] at hk <;> cases hk
  | @quoted lead body hl hb =>
    obtain ⟨hread, hlength⟩ := lexeme_quoted hl ht.symm
    obtain ⟨hread', -⟩ := lexeme_quoted (r := r') hl ht.symm
    rw [hread, hlength] at h
    rw [hread', hlength]
    exact stringLexeme_of_head hr h
  | @verbatim lead body hl hb =>
    obtain ⟨hread, hlength⟩ := lexeme_verbatim hl ht.symm
    rw [hread, hlength] at h
    exact hends (verbatimLexeme_stops h)
  | _ => cases hk

/-- A token that is read is read before all rests that look the same. -/
lemma lexeme_of_looksLike {lineStart kind c w r r'} (hr : LooksLike r r')
    (h : lexeme false lineStart c (w ++ r) = .ok ⟨.token kind, w.length⟩) :
    lexeme false lineStart c (w ++ r') = .ok ⟨.token kind, w.length⟩ := by
  by_cases hk : kind = .string
  · subst hk
    exact lexeme_string_of_head hr.1 h
  · have hspelling := (lexeme_spelling h).2
    rw [List.take_left] at hspelling
    exact hspelling.lexeme rfl (lexeme_ne_directive h) ((ends_of_lexeme h hk).of_looksLike hr)

/-- White space and comments stand before all rests that start with the same character. -/
lemma Filler.of_head {r r' piece : List Char} (h : Filler r piece) (hr : r.head? = r'.head?) :
    Filler r' piece := by
  cases h with
  | blank hc => exact .blank hc
  | line hbody hstop => exact .line hbody (by rwa [← hr])
  | block hfirst => exact .block hfirst

/-- A gap before a text is one before any that starts in the same way. -/
lemma Gap.of_head {r r' gap : List Char} (h : Gap r gap) (hr : r.head? = r'.head?) :
    Gap r' gap := by
  induction h with
  | nil => exact .nil
  | @cons piece gap hpiece _ ih =>
    refine .cons (hpiece.of_head ?_) ih
    cases gap with
    | nil => exact hr
    | cons => rfl

/-- A token that is read comes before the tokens of what follows it. -/
lemma tokensFrom_token {directives p kind c w r ts}
    (hl : lexeme directives p.lineStart c (w ++ r) = .ok ⟨.token kind, w.length⟩)
    (hts : tokensFrom directives ⟨false, false, p.offset + Text.byteLength (c :: w)⟩ 0 r = .ok ts) :
    tokensFrom directives p 0 (c :: (w ++ r)) =
      .ok (⟨kind, String.ofList (c :: w), p.offset, p.spaced⟩ :: ts) := by
  rw [tokensFrom, hl]
  dsimp only
  rw [tokensFrom_skip, List.take_left, List.drop_left, hts]

/-- White space or a comment is passed over. -/
lemma tokensFrom_filler {directives p c w r} (h : Filler r (c :: w)) :
    tokensFrom directives p 0 (c :: (w ++ r)) =
      tokensFrom directives
        ⟨p.lineStart || c == '\n', true, p.offset + Text.byteLength (c :: w)⟩ 0 r := by
  rw [tokensFrom, h.lexeme]
  dsimp only
  rw [tokensFrom_skip, List.take_left, List.drop_left]

/-- White space and comments are passed over. -/
lemma Gap.tokensFrom {rest gap} (h : Gap rest gap) (directives : Bool) (p : Position) :
    ∃ lineStart spaced, tokensFrom directives p 0 (gap ++ rest) =
      tokensFrom directives ⟨lineStart, spaced, p.offset + Text.byteLength gap⟩ 0 rest := by
  induction h generalizing p with
  | nil => exact ⟨p.lineStart, p.spaced, rfl⟩
  | @cons piece gap hpiece _ ih =>
    obtain ⟨c, w, rfl⟩ := List.exists_cons_of_ne_nil hpiece.ne_nil
    obtain ⟨lineStart, spaced, e⟩ := ih ⟨p.lineStart || c == '\n', true, _⟩
    refine ⟨lineStart, spaced, ?_⟩
    rw [List.append_assoc, List.cons_append, tokensFrom_filler hpiece, e, Text.byteLength_append,
      Nat.add_assoc]

/-- A `;` or a closing brace is a token, whatever comes after it. -/
lemma lexeme_of_last {lineStart x r} (hx : x = ';' ∨ x = '\x7d') :
    lexeme false lineStart x r = .ok ⟨.token .punctuator, 0⟩ := by
  have hp : String.ofList [x] ∈ punctuators := by rcases hx with rfl | rfl <;> decide
  have hlonger : ∀ q ∈ punctuators, q.toList.head? = some ';' ∨ q.toList.head? = some '\x7d' →
      q.toList.length = 1 := by
    decide +kernel
  have hends : Ends .punctuator [x] r := by
    intro y hy
    refine ⟨fun hq => ?_, ?_, ?_⟩
    · have := hlonger _ hq (by simpa using hx)
      simp at this
    · rcases hx with rfl | rfl <;> simp
    · rcases hx with rfl | rfl <;> simp
  have hspelling : Spelling .punctuator [x] := by
    have := Spelling.punctuator hp
    rwa [String.toList_ofList] at this
  exact hspelling.lexeme rfl nofun hends

/-- What comes after a `;` or a brace is not seen by a token before it. -/
lemma looksLike_append {front r r' : List Char} {x} (hx : x = ';' ∨ x = '\x7d') :
    LooksLike (front ++ x :: r) (front ++ x :: r') := by
  rcases front with _ | ⟨a, _ | ⟨b, front⟩⟩
  · refine ⟨rfl, fun h => ?_⟩
    rcases hx with rfl | rfl <;> cases h
  · exact ⟨rfl, fun _ => rfl⟩
  · exact ⟨rfl, fun _ => rfl⟩

/-- The last of the tokens of a text is the character `x`, with only white space and comments after
it; and when something else comes after it, the text has the same tokens up to it and then those of
what comes. -/
def HasLast (x : Char) (p : Position) (cs : List Char) (ts : List Token) (t : Token) : Prop :=
  ∃ front gap, cs = front ++ x :: gap ∧ Gap [] gap ∧ t.offset = p.offset + Text.byteLength front ∧
    ∀ r us, tokensFrom false ⟨false, false, t.span.finish⟩ 0 r = .ok us →
      tokensFrom false p 0 (front ++ x :: r) = .ok (ts ++ t :: us)

/-- What is read before a text and its last token puts its own tokens before them. -/
lemma HasLast.after {x p p' w rest ts t} (h : HasLast x p' rest ts t) (before : List Token)
    (hp : p'.offset = p.offset + Text.byteLength w)
    (hread : ∀ front gap r us, rest = front ++ x :: gap →
      tokensFrom false p' 0 (front ++ x :: r) = .ok us →
        tokensFrom false p 0 (w ++ (front ++ x :: r)) = .ok (before ++ us)) :
    HasLast x p (w ++ rest) (before ++ ts) t := by
  obtain ⟨front, gap, rfl, hgap, hoffset, htokens⟩ := h
  refine ⟨w ++ front, gap, by rw [List.append_assoc], hgap, ?_, fun r us hus => ?_⟩
  · rw [hoffset, hp, Text.byteLength_append, Nat.add_assoc]
  · rw [List.append_assoc, List.append_assoc]
    exact hread front gap r _ rfl (htokens r us hus)

/-- Tokens the last of which is a `;` or a brace are those of a text with this last token. -/
lemma hasLast_of_tokensFrom {x p cs ts t} (hx : x = ';' ∨ x = '\x7d')
    (h : tokensFrom false p 0 cs = .ok (ts ++ [t])) (ht : t.text.toList = [x]) :
    HasLast x p cs ts t := by
  have key : (ts ++ [t] = [] → Gap [] cs) ∧
      ∀ ts' t', ts ++ [t] = ts' ++ [t'] → t'.text.toList = [x] → HasLast x p cs ts' t' := by
    refine tokensFrom_induction
      (motive := fun p cs all => (all = [] → Gap [] cs) ∧
        ∀ ts' t', all = ts' ++ [t'] → t'.text.toList = [x] → HasLast x p cs ts' t') ?_ ?_ ?_ h
    · intro p
      exact ⟨fun _ => .nil, fun ts' t' e => absurd e.symm (by simp)⟩
    · rintro p c cs n all hl ⟨hgap, hlast⟩
      obtain ⟨hn, hfiller⟩ := filler_of_lexeme hl
      have hsplit : c :: cs = c :: cs.take n ++ cs.drop n := by simp
      rw [hsplit]
      refine ⟨fun hall => .cons (by rwa [List.append_nil]) (hgap hall), fun ts' t' e ht' => ?_⟩
      refine (hlast ts' t' e ht').after [] rfl fun front gap r us hrest hus => ?_
      rw [hrest] at hfiller
      rw [List.cons_append, tokensFrom_filler (hfiller.of_head (looksLike_append hx).1)]
      exact hus
    · rintro p c cs kind n all hl ⟨hgap, hlast⟩
      have hsplit : c :: cs = c :: cs.take n ++ cs.drop n := by simp
      refine ⟨nofun, fun ts' t' e ht' => ?_⟩
      cases ts' with
      | nil =>
        -- this is the last token
        obtain ⟨rfl, rfl⟩ := List.cons.inj e
        rw [String.toList_ofList] at ht'
        obtain ⟨rfl, -⟩ := List.cons.inj ht'
        cases (lexeme_of_last hx).symm.trans hl
        refine ⟨[], cs, rfl, hgap rfl, rfl, fun r us hus => ?_⟩
        refine tokensFrom_token (w := []) (lexeme_of_last hx) ?_
        rw [Text.byteLength_eq]
        exact hus
      | cons u ts' =>
        obtain ⟨rfl, hall⟩ := List.cons.inj e
        have hn : (cs.take n).length = n := by
          rw [List.length_take, Nat.min_eq_left (lexeme_spelling hl).1]
        rw [hsplit]
        refine (hlast ts' t' hall ht').after [_] rfl fun front gap r us hrest hus => ?_
        have hl' : lexeme false p.lineStart c (cs.take n ++ (front ++ x :: gap)) =
            .ok ⟨.token kind, (cs.take n).length⟩ := by
          rw [← hrest, List.take_append_drop, hn]
          exact hl
        exact tokensFrom_token (lexeme_of_looksLike (looksLike_append hx) hl') hus
  exact key.2 ts t rfl ht

/-- White space and comments that are left when white space is cut off the end: none, or some with a
comment last. -/
inductive Trimmed : List Char → Prop where
  | nil : Trimmed []
  | line {gap body} :
    Gap ('/' :: '/' :: body) gap →
    (∀ x ∈ body, x ≠ '\n') →
    Trimmed (gap ++ '/' :: '/' :: body)
  | block {gap body} :
    Gap ('/' :: '*' :: (body ++ ['*', '/'])) gap →
    ¬['*', '/'] <:+: body ++ ['*'] →
    Trimmed (gap ++ '/' :: '*' :: (body ++ ['*', '/']))

/-- What is left of white space and comments has a comment last. -/
lemma Gap.trimEnd {gap} (h : Gap [] gap) : Trimmed (Text.trimEnd gap) := by
  induction h with
  | nil => exact .nil
  | @cons piece gap hpiece _ ih =>
    rw [Text.trimEnd_append]
    split
    case isTrue =>
      cases hpiece with
      | @blank c hc =>
        have hnil : Text.trimEnd [c] = [] := List.rdropWhile_concat_pos Text.isBlank [] c hc
        rw [hnil]
        exact .nil
      | @line body hbody _ =>
        have hmarks : Text.trimEnd ['/', '/'] = ['/', '/'] := by decide
        have hline : Text.trimEnd ('/' :: '/' :: body) = '/' :: '/' :: Text.trimEnd body := by
          have := Text.trimEnd_append ['/', '/'] body
          rw [hmarks] at this
          split at this
          case isTrue hnil => rw [hnil]; exact this
          case isFalse => exact this
        rw [hline]
        refine Trimmed.line .nil fun x hx => hbody x ?_
        exact (List.rdropWhile_prefix Text.isBlank body).subset hx
      | @block body hfirst =>
        have hblock := Text.trimEnd_concat ('/' :: '*' :: (body ++ ['*'])) (x := '/') (by decide)
        rw [List.cons_append, List.cons_append, List.append_assoc] at hblock
        rw [show ['*', '/'] = ['*'] ++ ['/'] from rfl, hblock]
        exact Trimmed.block .nil hfirst
    case isFalse hne =>
      -- the comment that is left last stays last
      have hhead : (gap ++ []).head? = (Text.trimEnd gap).head? := by
        obtain ⟨w, hw⟩ := List.rdropWhile_prefix Text.isBlank gap
        obtain ⟨x, v, hv⟩ := List.exists_cons_of_ne_nil hne
        have hgap : gap = Text.trimEnd gap ++ w := hw.symm
        rw [hv] at hgap ⊢
        rw [List.append_nil, hgap]
        rfl
      have hpiece := hpiece.of_head hhead
      generalize Text.trimEnd gap = left at *
      cases ih with
      | nil => exact absurd rfl hne
      | line hgap hbody =>
        rw [← List.append_assoc]
        exact .line (.cons hpiece hgap) hbody
      | block hgap hfirst =>
        rw [← List.append_assoc]
        exact .block (.cons hpiece hgap) hfirst

end Fragment

end SharpSmith
