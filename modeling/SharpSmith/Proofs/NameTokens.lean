import Mathlib.Data.List.Induction
import SharpSmith.Fragment.Name
import SharpSmith.Proofs.Naming
import SharpSmith.Proofs.Spacing

/-!
# Names and their tokens

Whether a text is an identifier or a namespace is decided by looking at its characters, and reading
tokens decides it a second time. Both agree: an identifier is what is read as one identifier token,
a namespace is what is read as a name that is spelled the same way, and a name that has been read is
read again from its own text.
-/

namespace SharpSmith

open Fragment

/-- Joined identifiers are a namespace. -/
lemma isNamespace_join {w : String} {ws} (h : ∀ x ∈ w :: ws, IsIdentifier x.toList) :
    IsNamespace (Text.join "." (w :: ws)).toList := by
  induction ws generalizing w with
  | nil => exact .last (h w (.head _))
  | cons v vs ih =>
    rw [List.forall_mem_cons] at h
    have hjoin : (Text.join "." (w :: v :: vs)).toList =
        w.toList ++ '.' :: (Text.join "." (v :: vs)).toList := by
      simp [Text.join]
    rw [hjoin]
    exact .dot h.1 (ih h.2)

/-- A namespace is made of identifiers that are joined. -/
lemma IsNamespace.exists_join {cs} (h : IsNamespace cs) :
    ∃ w ws, (∀ x ∈ w :: ws, IsIdentifier x.toList) ∧ cs = (Text.join "." (w :: ws)).toList := by
  induction h with
  | @last w hw =>
    refine ⟨String.ofList w, [], ?_, by simp [Text.join]⟩
    rw [List.forall_mem_singleton, String.toList_ofList]
    exact hw
  | @dot w cs hw _ ih =>
    obtain ⟨v, vs, hvs, rfl⟩ := ih
    refine ⟨String.ofList w, v :: vs, ?_, by simp [Text.join]⟩
    rw [List.forall_mem_cons, String.toList_ofList]
    exact ⟨hw, hvs⟩

/-- A namespace starts with a letter, an underscore or the mark of an escaped word. -/
lemma IsNamespace.exists_cons {cs} (h : IsNamespace cs) :
    ∃ c ds, cs = c :: ds ∧ (Text.startsWord c = true ∨ c = '@') := by
  have hfirst : ∀ {w}, IsIdentifier w →
      ∃ c ds, w = c :: ds ∧ (Text.startsWord c = true ∨ c = '@') := by
    rintro w (⟨⟨hc, _⟩, -⟩ | -)
    · exact ⟨_, _, rfl, .inl hc⟩
    · exact ⟨_, _, rfl, .inr rfl⟩
  cases h with
  | last hw => exact hfirst hw
  | dot hw _ =>
    obtain ⟨c, ds, rfl, hc⟩ := hfirst hw
    exact ⟨c, _, rfl, hc⟩

namespace Fragment

/-- The texts of identifier tokens are the identifiers. -/
lemma spelling_identifier_iff {cs} : Spelling .identifier cs ↔ IsIdentifier cs := by
  constructor
  · intro h
    generalize hk : TokenKind.identifier = kind at h
    cases h with
    | escaped hc hw => exact .escaped (.mk hc hw)
    | @word c w hc hw =>
      refine .bare (.mk hc hw) ?_
      unfold wordKind at hk
      split at hk
      case isTrue => cases hk
      case isFalse hfree => simpa using hfree
    | _ => cases hk
  · rintro (⟨⟨hc, hw⟩, hk⟩ | ⟨hc, hw⟩)
    · have := Spelling.word hc hw
      rwa [wordKind, if_neg (by rw [hk]; exact Bool.false_ne_true)] at this
    · exact .escaped hc hw

/-- The kinds and texts of tokens that spell a dot and an identifier for each of some texts. -/
def dotted (ws : List String) : List (TokenKind × String) :=
  ws.flatMap fun w => [(.punctuator, "."), (.identifier, w)]

/-- The tokens of a dotted name are a dot and a word for each of its parts. -/
@[simp] lemma dotted_cons {w ws} :
    dotted (w :: ws) = (.punctuator, ".") :: (.identifier, w) :: dotted ws := rfl

/-- What an identifier starts with makes no other token of a dot before it. -/
lemma ends_dot {cs} (h : IsNamespace cs) : Ends .punctuator ['.'] cs := by
  obtain ⟨c, cs, rfl, hc⟩ := h.exists_cons
  have hsign : String.ofList ['.', c] ∉ punctuators := by
    intro hmem
    have table : ∀ p ∈ punctuators,
        (p.toList.head? != some '.' || p.toList.tail.all (· == '.')) = true := by
      decide
    have hdot : c = '.' := by simpa using table _ hmem
    subst hdot
    exact hc.elim (by decide) (by decide)
  have hdigit : c.isDigit = false := by
    rcases hc with hc | rfl
    · cases hd : c.isDigit with
      | false => rfl
      | true =>
        rw [Text.startsWord_of_isDigit hd] at hc
        cases hc
    · decide
  rintro x ⟨⟩
  exact ⟨hsign, by simp [hdigit], by simp⟩

/-- The tokens of joined identifiers are the identifiers and the dots between them. -/
lemma bareTokens?_join {w : String} {ws lineStart} (h : ∀ x ∈ w :: ws, IsIdentifier x.toList) :
    bareTokens? false lineStart (Text.join "." (w :: ws)).toList =
      some ((.identifier, w) :: dotted ws) := by
  induction ws generalizing w lineStart with
  | nil =>
    have hw := spelling_identifier_iff.2 (h w (.head _))
    have hread : bareTokens? false lineStart (w.toList ++ []) = _ :=
      bareTokens?_of_ends hw nofun Ends.nil
    rw [List.append_nil, String.ofList_toList, bareTokens?_nil] at hread
    exact hread
  | cons v vs ih =>
    rw [List.forall_mem_cons] at h
    have hw := spelling_identifier_iff.2 h.1
    have hjoin : (Text.join "." (w :: v :: vs)).toList =
        w.toList ++ (['.'] ++ (Text.join "." (v :: vs)).toList) := by
      simp [Text.join]
    have hdot : Spelling .punctuator ['.'] := .punctuator (p := ".") (by decide)
    have hends := ends_dot (isNamespace_join h.2)
    have hstop : Ends .identifier w.toList (['.'] ++ (Text.join "." (v :: vs)).toList) := by
      rintro x ⟨⟩
      decide
    rw [hjoin, bareTokens?_of_ends hw nofun hstop, bareTokens?_of_ends hdot nofun hends, ih h.2,
      String.ofList_toList]
    rfl

end Fragment

namespace Name

/-- An identifier is read before what is read of the tokens after it. -/
lemma segmentsFrom_cons_iff {dot t ts ws} :
    segmentsFrom dot (t :: ts) = .ok ws ↔
      t.kind = .identifier ∧ ∃ vs, dotFrom ts = .ok vs ∧ t.text :: vs = ws := by
  rw [segmentsFrom]
  split
  case isTrue ht => exact iff_of_false (fun h => nomatch h) fun h => absurd h.1 (by simpa using ht)
  case isFalse ht =>
    rw [bne_iff_ne, not_not] at ht
    cases dotFrom ts with
    | error e => exact iff_of_false (fun h => nomatch h) fun ⟨_, _, h, _⟩ => nomatch h
    | ok vs =>
      constructor
      · rintro ⟨⟩
        exact ⟨ht, vs, rfl, rfl⟩
      · rintro ⟨-, _, ⟨⟩, rfl⟩
        rfl

/-- A dot is read before what is read of the tokens after it. -/
lemma dotFrom_cons_iff {t ts ws} :
    dotFrom (t :: ts) = .ok ws ↔
      t.bare = (.punctuator, ".") ∧ segmentsFrom (some t) ts = .ok ws := by
  have ht : t.is "." = true ↔ t.bare = (.punctuator, ".") := by simp [Token.is, Token.bare]
  rw [dotFrom, ← ht]
  split
  case isTrue h => exact ⟨fun h' => ⟨h, h'⟩, fun h' => h'.2⟩
  case isFalse h => exact iff_of_false (fun h' => by cases h') fun h' => h h'.1

/-- A run of dots and identifiers is read as its identifiers. -/
lemma dotFrom_eq_ok_iff {ts ws} : dotFrom ts = .ok ws ↔ ts.map Token.bare = dotted ws := by
  induction ts using List.twoStepInduction generalizing ws with
  | nil =>
    rw [dotFrom]
    cases ws with
    | nil => exact iff_of_true rfl rfl
    | cons w ws => exact iff_of_false (fun h => nomatch h) (fun h => nomatch h)
  | singleton t =>
    have hfails : dotFrom [t] ≠ .ok ws := fun h => nomatch (dotFrom_cons_iff.1 h).2
    cases ws with
    | nil => exact iff_of_false hfails (fun h => nomatch h)
    | cons w ws => exact iff_of_false hfails (by simp)
  | cons_cons t u us ih _ =>
    rw [dotFrom_cons_iff, segmentsFrom_cons_iff]
    cases ws with
    | nil => exact iff_of_false (fun ⟨_, _, _, _, h⟩ => nomatch h) (fun h => nomatch h)
    | cons w ws =>
      rw [dotted_cons, List.map_cons, List.map_cons, List.cons.injEq, List.cons.injEq, ← ih]
      constructor
      · rintro ⟨ht, hu, vs, hvs, ⟨⟩⟩
        exact ⟨ht, by rw [Token.bare, hu], hvs⟩
      · rintro ⟨ht, hu, hws⟩
        obtain ⟨hkind, rfl⟩ := Prod.mk.inj hu
        exact ⟨ht, hkind, ws, hws, rfl⟩

/-- A text is read as a name just if its tokens are those of the name. -/
lemma parse_eq_ok_iff {text n} :
    parse text = .ok n ↔ ∃ w ws, n = ⟨w :: ws⟩ ∧
      bareTokens? false true text.toList = some ((.identifier, w) :: dotted ws) := by
  have hparse : parse text = .ok n ↔
      ∃ ts, tokenize false text = .ok ts ∧ ofTokens text.utf8ByteSize ts = .ok n := by
    rw [← bind_eq_ok_iff, parse]
    split
    case h_1 he => exact iff_of_false (fun h => nomatch h) (by rw [he]; exact fun h => nomatch h)
    case h_2 he => rw [he]; exact ⟨fun h => by cases h; rfl, fun h => by cases h; rfl⟩
  have htokens : ∀ {size ts}, ofTokens size ts = .ok n ↔
      ∃ w ws, n = ⟨w :: ws⟩ ∧ ts.map Token.bare = (.identifier, w) :: dotted ws := by
    intro size ts
    cases ts with
    | nil => exact iff_of_false (fun h => nomatch h) (fun ⟨_, _, _, h⟩ => nomatch h)
    | cons t ts =>
      rw [ofTokens, if_neg (by simp), map_eq_ok_iff]
      simp only [segmentsFrom_cons_iff, List.map_cons, List.cons.injEq]
      constructor
      · rintro ⟨_, ⟨ht, ws, hws, rfl⟩, rfl⟩
        exact ⟨t.text, ws, rfl, by rw [Token.bare, ht], dotFrom_eq_ok_iff.1 hws⟩
      · rintro ⟨w, ws, rfl, ht, hws⟩
        obtain ⟨hkind, rfl⟩ := Prod.mk.inj ht
        exact ⟨_, ⟨hkind, ws, dotFrom_eq_ok_iff.2 hws, rfl⟩, rfl⟩
  simp only [hparse, htokens, ← tokenize_bare_iff]
  constructor
  · rintro ⟨ts, hts, w, ws, rfl, h⟩
    exact ⟨w, ws, rfl, ts, hts, h⟩
  · rintro ⟨w, ws, rfl, ts, hts, h⟩
    exact ⟨ts, hts, w, ws, rfl, h⟩

/-- What is read as a name is made of identifiers. -/
lemma isIdentifier_of_parse {text w ws} (h : parse text = .ok ⟨w :: ws⟩) :
    ∀ x ∈ w :: ws, IsIdentifier x.toList := by
  obtain ⟨_, _, ⟨⟩, hread⟩ := parse_eq_ok_iff.1 h
  obtain ⟨ts, hts, hbare⟩ := tokenize_bare_iff.2 hread
  intro x hx
  have hmem : (.identifier, x) ∈ ts.map Token.bare := by
    rw [hbare]
    cases hx with
    | head => exact .head _
    | tail _ hx => exact .tail _ (List.mem_flatMap.2 ⟨x, hx, by simp⟩)
  obtain ⟨t, ht, htext⟩ := List.mem_map.1 hmem
  obtain ⟨hkind, rfl⟩ := Prod.mk.inj htext
  have hspelling := (spelling_of_mem_tokensFrom hts t ht).1
  rw [hkind] at hspelling
  exact spelling_identifier_iff.1 hspelling

/-- Joined identifiers are read as the name of these identifiers. -/
lemma parse_join {w : String} {ws} (h : ∀ x ∈ w :: ws, IsIdentifier x.toList) :
    parse (Text.join "." (w :: ws)) = .ok ⟨w :: ws⟩ :=
  parse_eq_ok_iff.2 ⟨w, ws, rfl, bareTokens?_join h⟩

end Name

/-- A text is an identifier just if its only token is one and covers all of it. -/
lemma isIdentifier_iff {s : String} :
    IsIdentifier s.toList ↔
      ∃ t, tokenize false s = .ok [t] ∧ t.kind = .identifier ∧ t.text = s := by
  constructor
  · intro h
    have hread : bareTokens? false true (Text.join "." [s]).toList = some [(.identifier, s)] :=
      bareTokens?_join (List.forall_mem_singleton.2 h)
    obtain ⟨ts, hts, hbare⟩ := tokenize_bare_iff.2 hread
    obtain ⟨t, rfl, ht⟩ := List.map_eq_singleton_iff.1 hbare
    obtain ⟨hkind, htext⟩ := Prod.mk.inj ht
    exact ⟨t, hts, hkind, htext⟩
  · rintro ⟨t, ht, hkind, rfl⟩
    have hspelling := (spelling_of_mem_tokensFrom ht t (.head _)).1
    rw [hkind] at hspelling
    exact spelling_identifier_iff.1 hspelling

/-- The checks of names agree with reading tokens: a text passes for an identifier just if it is
read as one identifier token that covers it, a text that is not empty passes for a namespace just if
it is read as a name with that text, and the text of a name is read as the name. -/
theorem names_agree_with_tokens (s : String) :
    (Identifier.fault? s = none ↔
      ∃ t, tokenize false s = .ok [t] ∧ t.kind = .identifier ∧ t.text = s) ∧
    (s ≠ "" →
      (Identifier.namespaceFault? s = none ↔ ∃ n, Name.parse s = .ok n ∧ n.text = s)) ∧
    ∀ n, Name.parse s = .ok n → Name.parse n.text = .ok n := by
  refine ⟨?_, fun hne => ?_, fun n hn => ?_⟩
  · exact identifierFault?_eq_none_iff.trans isIdentifier_iff
  · rw [namespaceFault?_eq_none_iff, or_iff_right hne]
    constructor
    · intro h
      obtain ⟨w, ws, hws, hjoin⟩ := h.exists_join
      rw [String.toList_inj] at hjoin
      exact ⟨⟨w :: ws⟩, hjoin ▸ Name.parse_join hws, hjoin.symm⟩
    · rintro ⟨n, hn, hs⟩
      obtain ⟨w, ws, rfl, -⟩ := Name.parse_eq_ok_iff.1 hn
      rw [← hs]
      exact isNamespace_join (Name.isIdentifier_of_parse hn)
  · obtain ⟨w, ws, rfl, -⟩ := Name.parse_eq_ok_iff.1 hn
    exact Name.parse_join (Name.isIdentifier_of_parse hn)

/-- An escaped word is one token, and white space around a dot belongs to no name. -/
theorem names_agree_with_tokens_escaped :
    (∃ t, tokenize false "@event" = .ok [t] ∧ t.kind = .identifier ∧ t.text = "@event") ∧
      (∃ n, Name.parse "System.@event" = .ok n ∧ n.text = "System.@event") ∧
      Name.parse "System . @event" = .ok ⟨["System", "@event"]⟩ ∧
      Name.parse "System.@event" = .ok ⟨["System", "@event"]⟩ := by
  have hspaced : Name.parse "System . @event" = .ok ⟨["System", "@event"]⟩ := by
    decide +kernel
  have htext : (⟨["System", "@event"]⟩ : Name).text = "System.@event" := by decide
  have hread := (names_agree_with_tokens "System . @event").2.2 _ hspaced
  rw [htext] at hread
  exact ⟨(names_agree_with_tokens "@event").1.1 (by decide +kernel),
    ((names_agree_with_tokens "System.@event").2.1 (by decide)).1 (by decide +kernel),
    hspaced, hread⟩

end SharpSmith
