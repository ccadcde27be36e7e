import Mathlib.Data.List.Infix
import SharpSmith.Proofs.Spelling

/-!
# Tokens and what stands between them

The tokens of a text and the white space and comments around them make up the whole text. `Gap` says
what may stand between tokens, and `Tiles` that a text is tokens with only that before, between and
after them, each token marked with where it stands and whether something stands before it. Reading a
text keeps to this: the step is `filler_of_lexeme` for what is passed over and `lexeme_spelling` for
a token, and `tiles_of_tokensFrom` takes the steps.
-/

namespace SharpSmith

namespace Text

/-- Bytes are counted as in a string. -/
lemma byteLength_eq (cs : List Char) : byteLength cs = (String.ofList cs).utf8ByteSize := by
  induction cs with
  | nil => rfl
  | cons c cs ih => simp [byteLength, ih]

/-- The bytes of two texts are added. -/
lemma byteLength_append {cs ds : List Char} :
    byteLength (cs ++ ds) = byteLength cs + byteLength ds := by
  rw [byteLength_eq, byteLength_eq, byteLength_eq, String.ofList_append, String.utf8ByteSize_append]

/-- A pattern is found where it first occurs: it does not start any earlier. -/
lemma indexOf?_eq_some_iff {pattern cs : List Char} {k : Nat} (hp : pattern ≠ []) :
    indexOf? pattern cs = some k ↔
      ∃ before after, cs = before ++ pattern ++ after ∧ before.length = k ∧
        ¬pattern <:+: before ++ pattern.dropLast := by
  have hlength : pattern.dropLast.length < pattern.length := by
    have := List.length_pos_iff.2 hp
    rw [List.length_dropLast]
    omega
  induction cs generalizing k with
  | nil => simp [indexOf?, hp]
  | cons c cs ih =>
    rw [indexOf?]
    split
    case isTrue hpre =>
      obtain ⟨after, hafter⟩ := List.isPrefixOf_iff_prefix.1 hpre
      constructor
      · rintro ⟨⟩
        refine ⟨[], after, hafter.symm, rfl, fun hin => ?_⟩
        exact absurd hin.length_le (Nat.not_le.2 hlength)
      · rintro ⟨before, after', e, rfl, hfirst⟩
        cases before with
        | nil => rfl
        | cons b before =>
          -- the occurrence at the start would be earlier than the first one
          refine absurd (List.IsPrefix.isInfix ?_) hfirst
          have hlong : b :: before ++ pattern.dropLast <+: c :: cs := by
            rw [e, List.append_assoc]
            exact (List.prefix_append_right_inj _).2
              ((List.dropLast_prefix _).trans (List.prefix_append _ _))
          refine List.prefix_of_prefix_length_le (List.isPrefixOf_iff_prefix.1 hpre) hlong ?_
          simp only [List.length_append, List.length_cons, List.length_dropLast]
          omega
    case isFalse hpre =>
      rw [Option.map_eq_some_iff]
      constructor
      · rintro ⟨j, hj, rfl⟩
        obtain ⟨before, after, rfl, rfl, hfirst⟩ := ih.1 hj
        refine ⟨c :: before, after, rfl, rfl, fun hin => ?_⟩
        rw [List.cons_append, List.infix_cons_iff] at hin
        rcases hin with hstart | hlater
        · refine hpre (List.isPrefixOf_iff_prefix.2 (hstart.trans ?_))
          rw [List.append_assoc]
          exact (List.prefix_cons_inj c).2 ((List.prefix_append_right_inj _).2
            ((List.dropLast_prefix _).trans (List.prefix_append _ _)))
        · exact hfirst hlater
      · rintro ⟨before, after, e, rfl, hfirst⟩
        cases before with
        | nil =>
          refine absurd (List.isPrefixOf_iff_prefix.2 ?_) hpre
          rw [e]
          exact List.prefix_append _ _
        | cons b before =>
          obtain ⟨rfl, rfl⟩ := List.cons.inj e
          refine ⟨before.length, ih.2 ⟨before, after, rfl, rfl, fun hin => ?_⟩, rfl⟩
          exact hfirst (hin.trans (List.suffix_cons _ _).isInfix)

end Text

namespace Fragment

/-- A white space character or a comment, as it stands before `rest`: a comment to the end of its
line goes up to a line feed or the end of the text, and any other up to the first sign that closes
it. -/
inductive Filler (rest : List Char) : List Char → Prop where
  | blank {c} :
    Text.isBlank c = true →
    Filler rest [c]
  | line {body} :
    (∀ x ∈ body, x ≠ '\n') →
    (∀ x ∈ rest.head?, x = '\n') →
    Filler rest ('/' :: '/' :: body)
  | block {body} :
    ¬['*', '/'] <:+: body ++ ['*'] →
    Filler rest ('/' :: '*' :: (body ++ ['*', '/']))

/-- White space and comments, as they stand before `rest`. -/
inductive Gap (rest : List Char) : List Char → Prop where
  | nil : Gap rest []
  | cons {piece gap} :
    Filler (gap ++ rest) piece →
    Gap rest gap →
    Gap rest (piece ++ gap)

/-- A text, the first character of which stands at byte `offset`, is made of the given tokens and
of white space and comments before, between and after them. No token is empty, and one is marked as
spaced just if something stands between it and the token before. -/
inductive Tiles : (offset : Nat) → List Char → List Token → Prop where
  | nil {offset gap} :
    Gap [] gap →
    Tiles offset gap []
  | cons {offset gap cs t ts} :
    Gap (t.text.toList ++ cs) gap →
    t.text ≠ "" →
    t.offset = offset + Text.byteLength gap →
    (t.spaced = true ↔ gap ≠ []) →
    Tiles t.span.finish cs ts →
    Tiles offset (gap ++ (t.text.toList ++ cs)) (t :: ts)

/-- Strings are tokens. -/
lemma stringLexeme_ne_blank {lead cs n} : stringLexeme lead cs ≠ .ok ⟨.blank, n⟩ := by
  intro h
  obtain ⟨_, -, hshape, -⟩ := stringLexeme_take h
  cases hshape

/-- A verbatim string is no filler. -/
lemma verbatimLexeme_ne_blank {lead cs n} : verbatimLexeme lead cs ≠ .ok ⟨.blank, n⟩ := by
  unfold verbatimLexeme
  split <;> nofun

/-- What a mark starts is no filler. -/
lemma markedLexeme_ne_blank {c cs n} : markedLexeme c cs ≠ .ok ⟨.blank, n⟩ := by
  unfold markedLexeme
  split
  case h_1 =>
    split
    case isTrue => exact verbatimLexeme_ne_blank
    case isFalse => exact stringLexeme_ne_blank
  case h_2 =>
    split
    case isTrue => exact verbatimLexeme_ne_blank
    case isFalse => split <;> nofun
  case h_3 => split <;> nofun
  case h_4 => nofun

/-- A punctuator is no filler. -/
lemma punctuatorLexeme_ne_blank {c cs n} : punctuatorLexeme c cs ≠ .ok ⟨.blank, n⟩ := by
  unfold punctuatorLexeme
  split <;> nofun

/-- What is passed over is white space or a comment. -/
lemma filler_of_lexeme {directives lineStart c cs n}
    (h : lexeme directives lineStart c cs = .ok ⟨.blank, n⟩) :
    n ≤ cs.length ∧ Filler (cs.drop n) (c :: cs.take n) := by
  cases recognized_of_lexeme h with
  | blank hc => exact ⟨Nat.zero_le _, .blank hc⟩
  | lineComment hc hslash =>
    subst hc
    obtain ⟨w, r, rfl, hw, hr⟩ := Text.exists_takeWhile_split (· != '\n') cs
    rw [Text.takeWhile_append_stop hw hr, List.take_left, List.drop_left]
    refine ⟨by simp, ?_⟩
    cases w with
    | nil => exact absurd (hr '/' (by simpa using hslash)) (by decide)
    | cons x body =>
      obtain rfl : x = '/' := by simpa using hslash
      exact .line (fun y hy => by simpa using hw y (.tail _ hy)) fun y hy => by simpa using hr y hy
  | blockComment hc hstar hk =>
    subst hc
    obtain ⟨ds, rfl⟩ := List.head?_eq_some_iff.1 hstar
    obtain ⟨body, r, hds, rfl, hfirst⟩ := (Text.indexOf?_eq_some_iff (List.cons_ne_nil _ _)).1 hk
    rw [List.tail_cons] at hds
    subst hds
    have hsplit : '*' :: (body ++ ['*', '/'] ++ r) = ('*' :: (body ++ ['*', '/'])) ++ r := rfl
    have hlength : body.length + 3 = ('*' :: (body ++ ['*', '/'])).length := by simp
    rw [hsplit, hlength, List.take_left, List.drop_left]
    exact ⟨by simp, .block hfirst⟩
  -- every other lexeme is a token
  | quote _ h => exact absurd h stringLexeme_ne_blank
  | marked _ h => exact absurd h markedLexeme_ne_blank
  | number _ h => cases h
  | word _ h => cases h
  | sign h => exact absurd h punctuatorLexeme_ne_blank

/-- White space and comments are passed over. -/
lemma Filler.lexeme {directives lineStart c w r} (h : Filler r (c :: w)) :
    lexeme directives lineStart c (w ++ r) = .ok ⟨.blank, w.length⟩ := by
  have hb : ¬Text.isBlank '/' = true := by decide
  unfold Fragment.lexeme
  cases h with
  | blank hc => rw [if_pos hc, List.length_nil]
  | @line body hbody hr =>
    have hline : (decide ('/' = '/') && ('/' :: body ++ r).head? == some '/') = true := rfl
    have hstop : ('/' :: body ++ r).takeWhile (· != '\n') = '/' :: body := by
      refine Text.takeWhile_append_stop (List.forall_mem_cons.2 ⟨by decide, fun x hx => ?_⟩)
        fun x hx => ?_
      · simpa using hbody x hx
      · simpa using hr x hx
    rw [if_neg hb, if_pos hline, hstop]
  | @block body hfirst =>
    have hline : ¬(decide ('/' = '/') && ('*' :: (body ++ ['*', '/']) ++ r).head? == some '/') =
        true := nofun
    have hblock : (decide ('/' = '/') && ('*' :: (body ++ ['*', '/']) ++ r).head? == some '*') =
        true := rfl
    have hindex : Text.indexOf? ['*', '/'] ('*' :: (body ++ ['*', '/']) ++ r).tail =
        some body.length :=
      (Text.indexOf?_eq_some_iff (List.cons_ne_nil _ _)).2 ⟨body, r, rfl, rfl, hfirst⟩
    rw [if_neg hb, if_neg hline, if_pos hblock, hindex]
    simp

/-- No filler is empty. -/
lemma Filler.ne_nil {rest piece} (h : Filler rest piece) : piece ≠ [] := by
  cases h <;> simp

/-- White space and comments in two parts, one after the other. -/
lemma Gap.append {rest gap gap' : List Char} (h : Gap (gap' ++ rest) gap) (h' : Gap rest gap') :
    Gap rest (gap ++ gap') := by
  induction h with
  | nil => exact h'
  | @cons piece gap hpiece _ ih =>
    rw [List.append_assoc]
    refine .cons ?_ ih
    rwa [List.append_assoc]

/-- A piece of filler is a gap by itself. -/
lemma Filler.gap {rest piece} (h : Filler rest piece) : Gap rest piece := by
  have hgap : Gap rest (piece ++ []) := .cons h .nil
  rwa [List.append_nil] at hgap

/-- The tokens that are read of a text make it up, together with what was passed over before. -/
lemma tiles_of_tokensFrom {directives p cs ts} (h : tokensFrom directives p 0 cs = .ok ts) :
    ∀ {offset gap}, Gap cs gap → p.offset = offset + Text.byteLength gap →
      (p.spaced = true ↔ gap ≠ []) → Tiles offset (gap ++ cs) ts := by
  refine tokensFrom_induction
    (motive := fun p cs ts => ∀ {offset gap}, Gap cs gap → p.offset = offset + Text.byteLength gap →
      (p.spaced = true ↔ gap ≠ []) → Tiles offset (gap ++ cs) ts) ?_ ?_ ?_ h
  · intro p offset gap hgap _ _
    rw [List.append_nil]
    exact .nil hgap
  · intro p c cs n ts hl ih offset gap hgap hoffset _
    obtain ⟨hn, hfiller⟩ := filler_of_lexeme hl
    have hsplit : c :: cs = c :: cs.take n ++ cs.drop n := by simp
    rw [hsplit] at hgap ⊢
    rw [← List.append_assoc]
    refine ih (hgap.append hfiller.gap) ?_ (by simp)
    rw [hoffset, Text.byteLength_append, Nat.add_assoc]
  · intro p c cs kind n ts hl ih offset gap hgap hoffset hspaced
    have hsplit : c :: cs = c :: cs.take n ++ cs.drop n := by simp
    rw [hsplit] at hgap ⊢
    have hrest : Tiles (p.offset + Text.byteLength (c :: cs.take n)) ([] ++ cs.drop n) ts :=
      ih .nil rfl (by simp)
    generalize ht : c :: cs.take n = text at hgap hrest ⊢
    have hne : String.ofList text ≠ "" := by simp [← ht]
    rw [Text.byteLength_eq, List.nil_append] at hrest
    rw [← String.toList_ofList (l := text)] at hgap
    have hcons := Tiles.cons (t := ⟨kind, String.ofList text, p.offset, p.spaced⟩) hgap hne hoffset
      hspaced hrest
    rwa [String.toList_ofList] at hcons

/-- The tokens of a text make it up. -/
lemma tiles_of_tokenize {directives text ts} (h : tokenize directives text = .ok ts) :
    Tiles 0 text.toList ts :=
  tiles_of_tokensFrom h .nil rfl (by simp [Position.start])

/-- A token is a piece of the text it makes up, and stands where it says. -/
lemma Tiles.exists_slice {offset cs ts t} (h : Tiles offset cs ts) (ht : t ∈ ts) :
    t.text ≠ "" ∧ ∃ before after, cs = before ++ (t.text.toList ++ after) ∧
      t.offset = offset + Text.byteLength before := by
  induction h with
  | nil => cases ht
  | @cons offset gap cs u ts _ hne hoffset _ _ ih =>
    rcases List.mem_cons.1 ht with rfl | ht
    · exact ⟨hne, gap, cs, rfl, hoffset⟩
    · obtain ⟨htext, before, after, rfl, hat⟩ := ih ht
      refine ⟨htext, gap ++ (u.text.toList ++ before), after, by simp, ?_⟩
      rw [hat, Token.span, Span.finish, hoffset, Text.byteLength_append, Text.byteLength_append,
        Text.byteLength_eq u.text.toList, String.ofList_toList]
      dsimp only
      omega

/-- Tokens that make up a text stand one after the other. -/
lemma Tiles.pairwise {offset cs ts} (h : Tiles offset cs ts) :
    ts.Pairwise fun t u => t.span.finish ≤ u.offset := by
  induction h with
  | nil => exact .nil
  | cons _ _ _ _ hts ih =>
    refine .cons (fun u hu => ?_) ih
    obtain ⟨-, _, _, -, hat⟩ := hts.exists_slice hu
    rw [hat]
    exact Nat.le_add_right _ _

/-- The tokens of a text make it up, together with the white space and comments around them: each
token is not empty and is what stands at its offset, no two overlap, and a token is marked as spaced
just if something stands before it since the token before. -/
theorem tokens_tile {directives : Bool} {text : String} {ts : List Token}
    (h : tokenize directives text = .ok ts) :
    Tiles 0 text.toList ts ∧
      (∀ t ∈ ts, t.text ≠ "" ∧ ∃ before after : String, text = before ++ t.text ++ after ∧
        before.utf8ByteSize = t.offset) ∧
      ts.Pairwise fun t u => t.span.finish ≤ u.offset := by
  have htiles := tiles_of_tokenize h
  refine ⟨htiles, fun t ht => ?_, htiles.pairwise⟩
  obtain ⟨hne, before, after, e, hat⟩ := htiles.exists_slice ht
  refine ⟨hne, String.ofList before, String.ofList after, ?_, ?_⟩
  · rw [← String.toList_inj, e]
    simp
  · rw [hat, Nat.zero_add, Text.byteLength_eq]

/-- A directive and a statement with comments and a raw string, and letters of two bytes in each. -/
def commented : String :=
  "#region É//é\nx /*é*/=\"\"\"é\"é\"\"\"; // é"

/-- The tokens of `commented`. -/
def commentedTokens : List Token :=
  [⟨.directive, "#region É//é", 0, false⟩, ⟨.identifier, "x", 15, true⟩,
    ⟨.punctuator, "=", 23, true⟩, ⟨.string, "\"\"\"é\"é\"\"\"", 24, false⟩,
    ⟨.punctuator, ";", 35, false⟩]

/-- A `//` in a directive is no comment, and what stands in a string is no end of it. -/
theorem tokens_tile_commented :
    tokenize true commented = .ok commentedTokens ∧ Tiles 0 commented.toList commentedTokens ∧
      ∃ before after : String, commented = before ++ "=" ++ after ∧ before.utf8ByteSize = 23 := by
  have h : tokenize true commented = .ok commentedTokens := by decide +kernel
  obtain ⟨htiles, hslices, -⟩ := tokens_tile h
  exact ⟨h, htiles, (hslices ⟨.punctuator, "=", 23, true⟩ (by decide)).2⟩

end Fragment

end SharpSmith
