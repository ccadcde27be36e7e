import SharpSmith.Fragment.Source
import SharpSmith.Proofs.Delimiters
import SharpSmith.Proofs.Outcome
import SharpSmith.Proofs.Reading

/-!
# Neutral tokens

Tokens are neutral when whatever they open they also close, in order: groups between delimiters and
regions between directives. Neutral tokens are balanced and leave every nesting as it is, so a file
whose tokens are neutral is accepted as soon as it has tokens at all.
-/

namespace SharpSmith.Fragment

/-- Delimiters that open and close a group. -/
inductive Fits : String → String → Prop where
  | parentheses : Fits "(" ")"
  | brackets : Fits "[" "]"
  | braces : Fits "\x7b" "\x7d"

/-- A token that neither opens nor closes anything. -/
structure Loose (b : TokenKind × String) : Prop where
  notDirective : b.1 ≠ .directive
  notDelimiter : b.1 = .punctuator → b.2 ∉ ["(", ")", "[", "]", "\x7b", "\x7d"]

/-- Tokens that close what they open. -/
inductive Neutral : List (TokenKind × String) → Prop where
  | nil : Neutral []
  | token {b bs} :
    Loose b →
    Neutral bs →
    Neutral (b :: bs)
  | group {o c bs cs} :
    Fits o c →
    Neutral bs →
    Neutral cs →
    Neutral ((.punctuator, o) :: (bs ++ (.punctuator, c) :: cs))
  | region {name bs cs} :
    Neutral bs →
    Neutral cs →
    Neutral ((.directive, "#region " ++ name) :: (bs ++ (.directive, "#endregion") :: cs))

/-- Tokens that close what they open do so one after the other. -/
lemma Neutral.append {bs cs} (hb : Neutral bs) (hc : Neutral cs) : Neutral (bs ++ cs) := by
  induction hb with
  | nil => exact hc
  | token hl _ ih => exact .token hl ih
  | group hf hbs _ _ ih =>
    have h := Neutral.group hf hbs ih
    simpa using h
  | @region name bs cs hbs _ _ ih =>
    have h : Neutral ((.directive, "#region " ++ name) :: _) := .region hbs ih
    simpa using h

/-- A token that is no directive and no delimiter is loose. -/
lemma loose_bare {t : Token} (hd : t.kind ≠ .directive) (ho : t.opens = false)
    (hc : t.closes = false) : Loose t.bare := by
  refine ⟨hd, fun hk hmem => ?_⟩
  have hk : t.kind = .punctuator := hk
  have hmem : t.text ∈ ["(", ")", "[", "]", "\x7b", "\x7d"] := hmem
  simp only [List.mem_cons, List.not_mem_nil, or_false] at hmem
  rcases hmem with e | e | e | e | e | e <;>
    simp [Token.opens, Token.closes, Token.closes?, Token.is, hk, e] at ho hc

/-- A loose token is no delimiter. -/
lemma not_delimiter_of_loose {t : Token} (h : Loose t.bare) :
    t.opens = false ∧ t.closes = false := by
  by_cases hk : t.kind = .punctuator
  · have hmem : t.text ∉ ["(", ")", "[", "]", "\x7b", "\x7d"] := h.notDelimiter hk
    simp only [List.mem_cons, List.not_mem_nil, or_false, not_or] at hmem
    simp [Token.opens, Token.closes, Token.closes?, Token.is, hmem]
  · exact ⟨opens_of_kind hk, closes_of_kind hk⟩

/-- An opener and the closer that closes it fit. -/
lemma fits_of_closes? {o c : Token} (ho : o.opens = true) (hc : c.closes? = some o.text) :
    o.bare = (.punctuator, o.text) ∧ c.bare = (.punctuator, c.text) ∧ Fits o.text c.text := by
  have hok : o.kind = .punctuator := by
    by_contra hk
    rw [opens_of_kind hk] at ho
    cases ho
  have hck : c.kind = .punctuator := by
    by_contra hk
    have := closes_of_closes? hc
    rw [closes_of_kind hk] at this
    cases this
  refine ⟨by rw [Token.bare, hok], by rw [Token.bare, hck], ?_⟩
  simp only [Token.closes?, Token.is, hck, beq_self_eq_true, Bool.true_and, beq_iff_eq] at hc
  split at hc
  case isTrue e =>
    rw [e, ← Option.some.inj hc]
    exact .parentheses
  split at hc
  case isTrue e =>
    rw [e, ← Option.some.inj hc]
    exact .brackets
  split at hc
  case isTrue e =>
    rw [e, ← Option.some.inj hc]
    exact .braces
  case isFalse => cases hc

/-- Of two delimiters that fit the second closes the first. -/
lemma closes?_of_fits {o c : Token} {opening closing} (h : Fits opening closing)
    (ho : o.bare = (.punctuator, opening)) (hc : c.bare = (.punctuator, closing)) :
    o.opens = true ∧ c.closes? = some o.text := by
  obtain ⟨hok, hot⟩ := Prod.mk.inj ho
  obtain ⟨hck, hct⟩ := Prod.mk.inj hc
  cases h <;> simp [Token.opens, Token.closes?, Token.is, hok, hot, hck, hct]

/-- Balanced tokens without directives are neutral. -/
lemma Balanced.neutral {ts} (h : Balanced ts) (hd : ∀ t ∈ ts, t.kind ≠ .directive) :
    Neutral (ts.map Token.bare) := by
  induction h with
  | nil => exact .nil
  | @token t ts ho hc _ ih =>
    refine .token (loose_bare (hd t (.head _)) ho hc) (ih fun u hu => ?_)
    exact hd u (.tail _ hu)
  | @group o ts c us ho hc _ _ ih₁ ih₂ =>
    obtain ⟨eo, ec, hf⟩ := fits_of_closes? ho hc
    rw [List.map_cons, List.map_append, List.map_cons, eo, ec]
    refine .group hf (ih₁ fun u hu => hd u ?_) (ih₂ fun u hu => hd u ?_)
    · exact .tail _ (List.mem_append_left _ hu)
    · exact .tail _ (List.mem_append_right _ (.tail _ hu))

/-- What is read as one token, others, a token and others is made of them. -/
lemma exists_of_map_bare {ts : List Token} {o c bs cs}
    (e : ts.map Token.bare = o :: (bs ++ c :: cs)) :
    ∃ t us v ws, ts = t :: (us ++ v :: ws) ∧ t.bare = o ∧ us.map Token.bare = bs ∧ v.bare = c ∧
      ws.map Token.bare = cs := by
  obtain ⟨t, rest, rfl, ht, hrest⟩ := List.map_eq_cons_iff.1 e
  obtain ⟨us, rest, rfl, hus, hlast⟩ := List.map_eq_append_iff.1 hrest
  obtain ⟨v, ws, rfl, hv, hws⟩ := List.map_eq_cons_iff.1 hlast
  exact ⟨t, us, v, ws, rfl, ht, hus, hv, hws⟩

/-- Neutral tokens are balanced. -/
lemma Neutral.balanced {bs} (h : Neutral bs) {ts} (e : ts.map Token.bare = bs) : Balanced ts := by
  induction h generalizing ts with
  | nil =>
    rw [List.map_eq_nil_iff.1 e]
    exact .nil
  | token hl _ ih =>
    obtain ⟨t, ts, rfl, rfl, rfl⟩ := List.map_eq_cons_iff.1 e
    obtain ⟨ho, hc⟩ := not_delimiter_of_loose hl
    exact .token ho hc (ih rfl)
  | group hf _ _ ih₁ ih₂ =>
    obtain ⟨o, ts, c, us, rfl, ho, hts, hc, hus⟩ := exists_of_map_bare e
    obtain ⟨ho, hc⟩ := closes?_of_fits hf ho hc
    exact .group ho hc (ih₁ hts) (ih₂ hus)
  | region _ _ ih₁ ih₂ =>
    obtain ⟨o, ts, c, us, rfl, ho, hts, hc, hus⟩ := exists_of_map_bare e
    -- the two directives are no delimiters
    have plain : ∀ {t : Token} {text}, t.bare = (.directive, text) →
        t.opens = false ∧ t.closes = false := by
      intro t text ht
      have hk : t.kind ≠ .punctuator := by
        rw [show t.kind = .directive from (Prod.mk.inj ht).1]
        exact nofun
      exact ⟨opens_of_kind hk, closes_of_kind hk⟩
    exact .token (plain ho).1 (plain ho).2
      ((ih₁ hts).append (.token (plain hc).1 (plain hc).2 (ih₂ hus)))

end SharpSmith.Fragment

namespace SharpSmith.Source

open Fragment

/-- The directive that opens a region is named so whatever its text. -/
lemma directiveName_region {name} : directiveName ("#region " ++ name) = "region" := by
  simp only [directiveName, String.toList_append]
  rfl

/-- A token that is no directive leaves a nesting as it is. -/
lemma Nesting.run_of_kind {n : Nesting} {t : Token} {ts} (h : t.kind ≠ .directive) :
    n.run (t :: ts) = n.run ts := by
  rw [run, if_neg (by simpa using h)]

/-- A directive whose step succeeds is followed by the rest of the run. -/
lemma Nesting.run_of_directive {n n' : Nesting} {t : Token} {ts} (h : t.kind = .directive)
    (hs : n.step t (directiveName t.text) = .ok n') : n.run (t :: ts) = n'.run ts := by
  rw [run, if_pos (by simpa using h), hs]

/-- Neutral tokens leave every nesting as it is. -/
lemma Nesting.run_neutral {bs} (h : Neutral bs) {ts us} {n : Nesting}
    (e : ts.map Token.bare = bs) : n.run (ts ++ us) = n.run us := by
  induction h generalizing ts us n with
  | nil =>
    rw [List.map_eq_nil_iff.1 e]
    rfl
  | token hl _ ih =>
    obtain ⟨t, ts, rfl, rfl, rfl⟩ := List.map_eq_cons_iff.1 e
    rw [List.cons_append, run_of_kind hl.notDirective]
    exact ih rfl
  | group _ _ _ ih₁ ih₂ =>
    obtain ⟨o, ts, c, vs, rfl, ho, hts, hc, hvs⟩ := exists_of_map_bare e
    have plain : ∀ {t : Token} {text}, t.bare = (.punctuator, text) → t.kind ≠ .directive := by
      intro t text ht
      rw [show t.kind = .punctuator from (Prod.mk.inj ht).1]
      exact nofun
    rw [List.cons_append, run_of_kind (plain ho), List.append_assoc, ih₁ hts, List.cons_append,
      run_of_kind (plain hc), ih₂ hvs]
  | @region name _ _ _ _ ih₁ ih₂ =>
    obtain ⟨o, ts, c, vs, rfl, ho, hts, hc, hvs⟩ := exists_of_map_bare e
    obtain ⟨hok, hot⟩ := Prod.mk.inj ho
    obtain ⟨hck, hct⟩ := Prod.mk.inj hc
    have hopen : n.step o (directiveName o.text) = .ok { n with regions := o :: n.regions } := by
      rw [hot, directiveName_region]
      rfl
    -- the region that the second directive closes is the one that the first has opened
    have hclose : Nesting.step { n with regions := o :: n.regions } c (directiveName c.text) =
        .ok n := by
      rw [hct]
      rfl
    rw [List.cons_append, run_of_directive hok hopen, List.append_assoc, ih₁ hts,
      List.cons_append, run_of_directive hck hclose, ih₂ hvs]

/-- A file is accepted just if it has balanced tokens and its directives leave nothing open. -/
lemma verify_eq_ok_iff_run {text} :
    verify text = .ok () ↔
      ∃ ts, tokenize true text = .ok ts ∧ Balanced ts ∧
        ∃ n, Nesting.run ⟨[], []⟩ ts = .ok n ∧ n.fault? = none := by
  have hverify : verify text = .ok () ↔ check text = .ok () := by
    unfold verify
    cases check text <;> simp
  rw [hverify]
  simp only [check, bind_eq_ok_iff]
  constructor
  · rintro ⟨ts, hts, partners, hpartners, n, hn, hfault⟩
    refine ⟨ts, hts, exists_partners_iff.1 ⟨partners, hpartners⟩, n, hn, ?_⟩
    cases hf : n.fault? with
    | none => rfl
    | some e =>
      rw [hf] at hfault
      cases hfault
  · rintro ⟨ts, hts, hb, n, hn, hfault⟩
    obtain ⟨partners, hpartners⟩ := exists_partners_iff.2 hb
    exact ⟨ts, hts, partners, hpartners, n, hn, by rw [hfault]; rfl⟩

/-- A file whose tokens are neutral if it has any is accepted just if it has tokens. -/
theorem verify_eq_ok_iff {text}
    (h : ∀ bs, bareTokens? true true text.toList = some bs → Neutral bs) :
    verify text = .ok () ↔ (bareTokens? true true text.toList).isSome = true := by
  rw [verify_eq_ok_iff_run, Option.isSome_iff_exists]
  constructor
  · rintro ⟨ts, hts, -⟩
    exact ⟨_, tokenize_bare_iff.1 ⟨ts, hts, rfl⟩⟩
  · rintro ⟨bs, hbs⟩
    obtain ⟨ts, hts, e⟩ := tokenize_bare_iff.2 hbs
    have hrun : Nesting.run ⟨[], []⟩ (ts ++ []) = .ok ⟨[], []⟩ :=
      Nesting.run_neutral (h bs hbs) e
    rw [List.append_nil] at hrun
    exact ⟨ts, hts, (h bs hbs).balanced e, _, hrun, rfl⟩

end SharpSmith.Source
