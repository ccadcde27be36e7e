import SharpSmith.Proofs.Embedding
import SharpSmith.Proofs.Resolution

/-!
# Pieces of a file

A file is put together from fixed words and signs, from names and types that have been checked, and
from fragments. `Reads` says of such a piece that it is read apart from what follows it: its tokens
are neutral, and it has tokens just if each of the fragments in it has. Pieces are put together with
`Reads.append`, `Reads.group` and `Reads.join`.
-/

namespace SharpSmith.Fragment

/-- A text has tokens, none of which is a directive. -/
def Lexes (text : String) : Prop :=
  ∃ ts, tokenize false text = .ok ts

/-- Whether a text has tokens and no directive can be decided. -/
instance (text : String) : Decidable (Lexes text) :=
  match h : tokenize false text with
  | .ok ts => .isTrue ⟨ts, h⟩
  | .error _ => .isFalse fun ⟨_, hts⟩ => by rw [h] at hts; cases hts

/-- A text has tokens and no directive just if it can be read bare. -/
lemma lexes_iff {text} : Lexes text ↔ (bareTokens? false true text.toList).isSome = true := by
  rw [Option.isSome_iff_exists]
  constructor
  · rintro ⟨ts, hts⟩
    exact ⟨_, tokenize_bare_iff.1 ⟨ts, hts, rfl⟩⟩
  · rintro ⟨bs, hbs⟩
    obtain ⟨ts, hts, -⟩ := tokenize_bare_iff.2 hbs
    exact ⟨ts, hts⟩

/-- What is read of a part of a file with the given fragments. -/
structure Part (fragments : List String) (v : Option (List (TokenKind × String))) : Prop where
  isSome_iff : v.isSome = true ↔ ∀ text ∈ fragments, Lexes text
  neutral : ∀ bs ∈ v, Neutral bs

/-- Tokens that close what they open are a part without fragments. -/
lemma Part.tokens {bs} (h : Neutral bs) : Part [] (some bs) :=
  ⟨by simp, by rintro _ ⟨⟩; exact h⟩

/-- A part after another one holds the fragments of both. -/
lemma Part.append {fs gs v w} (hv : Part fs v) (hw : Part gs w) : Part (fs ++ gs) (chain v w) := by
  constructor
  · rw [List.forall_mem_append, ← hv.isSome_iff, ← hw.isSome_iff]
    cases v <;> cases w <;> simp [chain]
  · intro bs hbs
    obtain ⟨us, hus, hbs⟩ := Option.bind_eq_some_iff.1 hbs
    obtain ⟨vs, hvs, rfl⟩ := Option.map_eq_some_iff.1 hbs
    exact (hv.neutral us hus).append (hw.neutral vs hvs)

/-- A part between two tokens that make it neutral. -/
lemma Part.between {fs v o c} (hv : Part fs v)
    (h : ∀ bs, Neutral bs → Neutral (o :: (bs ++ [c]))) :
    Part fs (chain (some [o]) (chain v (some [c]))) := by
  constructor
  · rw [← hv.isSome_iff]
    cases v <;> simp [chain]
  · intro bs hbs
    cases v with
    | none => cases hbs
    | some us =>
      cases hbs
      exact h us (hv.neutral us rfl)

/-- The rest of a text starts with a character of the given sort, if with any. -/
def Before (p : Char → Bool) (r : List Char) : Prop :=
  ∀ x ∈ r.head?, p x = true

/-- Any character. -/
def isAny (_ : Char) : Bool :=
  true

/-- Any text may follow where any character may. -/
lemma before_any {r} : Before isAny r :=
  fun _ _ => rfl

/-- A character that ends a word and a type. -/
def isEnd (c : Char) : Bool :=
  !Text.continuesWord c && c != '='

/-- A character that ends a fragment. -/
def isSeal (c : Char) : Bool :=
  !isSoft c && c != '"'

/-- What starts with a character that ends a fragment stands apart from it. -/
lemma Before.apart {r} (h : Before isSeal r) : Apart r := by
  intro x hx
  simpa [isSeal] using h x hx

/-- A piece of a line that holds the given fragments, and is read apart from what follows it when
that starts with a character of the given sort. Only a piece with a token in front may stand first
in its line, where a directive could stand too. -/
def Reads (first : Bool) (p : Char → Bool) (s : String) (fs : List String) : Prop :=
  ∃ v, Part fs v ∧ ∀ directives lineStart r, (lineStart = true → first = true) → Before p r →
    bareTokens? directives lineStart (s.toList ++ r) = chain v (bareTokens? directives false r)

/-- The empty piece holds no fragment. -/
lemma Reads.empty {p} : Reads false p "" [] := by
  refine ⟨some [], .tokens .nil, fun d lineStart r hl _ => ?_⟩
  cases lineStart with
  | false => simp
  | true => cases hl rfl

/-- A piece that some characters may follow is read so before fewer of them. -/
lemma Reads.mono {first p q s fs} (h : Reads first p s fs) (hp : ∀ c, q c = true → p c = true) :
    Reads first q s fs := by
  obtain ⟨v, hv, hread⟩ := h
  exact ⟨v, hv, fun d ls r hl hr => hread d ls r hl fun x hx => hp x (hr x hx)⟩

/-- A piece that may stand first in its line may stand elsewhere. -/
lemma Reads.mid {first p s fs} (h : Reads first p s fs) : Reads false p s fs := by
  obtain ⟨v, hv, hread⟩ := h
  exact ⟨v, hv, fun d ls r hl => hread d ls r fun e => absurd (hl e) (by simp)⟩

/-- A piece after another one holds the fragments of both if it may follow that one. -/
lemma Reads.append {first p q s t fs gs} (hs : Reads first p s fs) (ht : Reads false q t gs)
    (h : ∀ r, Before q r → Before p (t.toList ++ r)) : Reads first q (s ++ t) (fs ++ gs) := by
  obtain ⟨v, hv, hreads⟩ := hs
  obtain ⟨w, hw, hreadt⟩ := ht
  refine ⟨chain v w, hv.append hw, fun d ls r hl hr => ?_⟩
  rw [String.toList_append, List.append_assoc, hreads d ls _ hl (h r hr), hreadt d false r nofun hr,
    chain_assoc]

/-- A piece without fragments may stand after another one. -/
lemma Reads.append_plain {first p q s t fs} (hs : Reads first p s fs) (ht : Reads false q t [])
    (h : ∀ r, Before q r → Before p (t.toList ++ r)) : Reads first q (s ++ t) fs := by
  have := hs.append ht h
  rwa [List.append_nil] at this

/-- A token that is no directive and no delimiter is a piece without fragments. -/
lemma Reads.token {first p kind s} (h : Spelling kind s.toList) (hl : Loose (kind, s))
    (he : ∀ r, Before p r → Ends kind s.toList r) : Reads first p s [] := by
  refine ⟨some [(kind, s)], .tokens (.token hl .nil), fun d ls r _ hr => ?_⟩
  rw [bareTokens?_of_ends h hl.notDirective (he r hr), String.ofList_toList]
  cases bareTokens? d false r <;> rfl

/-- A space is a piece without fragments. -/
lemma reads_space : Reads false isAny " " [] := by
  refine ⟨some [], .tokens .nil, fun d lineStart r hl _ => ?_⟩
  cases lineStart with
  | true => cases hl rfl
  | false =>
    rw [chain_nil]
    exact bareTokens?_space

/-- A space may stand after a piece that it ends. -/
lemma Reads.space {first p s fs} (h : Reads first p s fs) (hp : p ' ' = true) :
    Reads first isAny (s ++ " ") fs := by
  refine h.append_plain reads_space fun r _ => ?_
  rintro x ⟨⟩
  exact hp

/-- The signs that stand alone wherever they stand. -/
def loneSigns : List String :=
  ["(", ")", "[", "]", "\x7b", "\x7d", ";", ","]

/-- A sign that stands alone is read first, whatever follows it. -/
lemma bareTokens?_lone {sign} (h : sign ∈ loneSigns) (directives lineStart : Bool) (r : List Char) :
    bareTokens? directives lineStart (sign.toList ++ r) =
      chain (some [(.punctuator, sign)]) (bareTokens? directives false r) := by
  have signs : ∀ s ∈ loneSigns, s ∈ punctuators ∧ s.toList.any isSoft = false := by decide
  obtain ⟨hp, hhard⟩ := signs sign h
  have hs := Spelling.punctuator hp
  have hends : Ends .punctuator sign.toList r := by
    obtain ⟨c, w, hw⟩ := hs.exists_cons
    rw [hw] at hs hhard ⊢
    simp only [List.any_cons, Bool.or_eq_false_iff] at hhard
    exact hs.ends_of_hard nofun hhard.1 fun hk => absurd rfl hk
  rw [bareTokens?_of_ends hs nofun hends, String.ofList_toList]
  cases bareTokens? directives false r <;> rfl

/-- Delimiters stand alone wherever they stand. -/
lemma Fits.lone {o c} (h : Fits o c) : o ∈ loneSigns ∧ c ∈ loneSigns := by
  cases h <;> decide

/-- A group of its own around a piece that its closer ends. -/
lemma Reads.group {first p o c s fs} (hf : Fits o c) (h : Reads false p s fs)
    (hp : Before p c.toList) : Reads first isAny (o ++ s ++ c) fs := by
  obtain ⟨v, hv, hread⟩ := h
  obtain ⟨ho, hc⟩ := hf.lone
  refine ⟨_, hv.between fun bs hb => .group hf hb .nil, fun d ls r _ _ => ?_⟩
  have hclose : Before p (c.toList ++ r) := by
    cases hf <;> exact hp
  rw [String.toList_append, String.toList_append, List.append_assoc, List.append_assoc,
    bareTokens?_lone ho, hread d false _ nofun hclose, bareTokens?_lone hc, chain_assoc,
    chain_assoc]

/-- A sign that stands alone and is no delimiter is a piece without fragments. -/
lemma reads_lone {first sign} (h : sign ∈ loneSigns)
    (hd : sign ∉ ["(", ")", "[", "]", "\x7b", "\x7d"]) : Reads first isAny sign [] := by
  have hl : Loose (.punctuator, sign) := ⟨nofun, fun _ => hd⟩
  exact ⟨_, .tokens (.token hl .nil), fun d ls r _ _ => bareTokens?_lone h d ls r⟩

/-- Pieces with commas between. -/
lemma Reads.join {p} {fs : String → List String} (hp : p ',' = true) {ss : List String}
    (h : ∀ s ∈ ss, Reads false p s (fs s)) :
    Reads false p (Text.join ", " ss) (ss.flatMap fs) := by
  induction ss with
  | nil => exact .empty
  | cons s ss ih =>
    have hs := h s (.head _)
    have ih := ih fun t ht => h t (.tail _ ht)
    cases ss with
    | nil =>
      rw [Text.join, List.flatMap_cons, List.flatMap_nil, List.append_nil]
      exact hs
    | cons t ss =>
      rw [Text.join, List.flatMap_cons]
      · have hcomma : Reads false isAny ", " [] :=
          (reads_lone (by decide) (by decide) : Reads false isAny "," []).space rfl
        refine (hs.append_plain hcomma fun r _ => ?_).append ih fun r _ => before_any
        rintro x ⟨⟩
        exact hp
      · exact nofun

/-- What ends a word does not go on with it. -/
lemma Before.continuesWord {r} (h : Before isEnd r) :
    ∀ x ∈ r.head?, Text.continuesWord x = false := by
  intro x hx
  have hx := h x hx
  simp only [isEnd, Bool.and_eq_true, Bool.not_eq_true'] at hx
  exact hx.1

/-- A character that an identifier starts with. -/
def isStart (c : Char) : Bool :=
  Text.startsWord c || c == '@'

/-- A name or a type: it starts like an identifier, and is read apart from what ends a word. -/
structure Named (s : String) : Prop where
  reads : ∀ first, Reads first isEnd s []
  start : ∃ c w, s.toList = c :: w ∧ isStart c = true

/-- A name starts with a character that an identifier starts with. -/
lemma Named.before {s} (h : Named s) {r} : Before isStart (s.toList ++ r) := by
  obtain ⟨c, w, hw, hc⟩ := h.start
  rw [hw]
  rintro x ⟨⟩
  exact hc

/-- A word is read as a name is. -/
lemma named_word {s} (h : IsWord s.toList) : Named s := by
  obtain ⟨c, w, hw, hc, hrest⟩ : ∃ c w, s.toList = c :: w ∧ Text.startsWord c = true ∧
      ∀ x ∈ w, Text.continuesWord x = true := by
    generalize s.toList = cs at h
    cases h with
    | mk hc hw => exact ⟨_, _, rfl, hc, hw⟩
  refine ⟨fun first => ?_, c, w, hw, by simp [isStart, hc]⟩
  have hs : Spelling (wordKind s.toList) s.toList := by
    rw [hw]
    exact .word hc hrest
  rcases wordKind_or s.toList with e | e <;> rw [e] at hs
  · exact .token hs ⟨nofun, nofun⟩ fun r hr => hr.continuesWord
  · exact .token hs ⟨nofun, nofun⟩ fun r hr => hr.continuesWord

/-- An identifier is read as a name is. -/
lemma named_identifier {s} (h : IsIdentifier s.toList) : Named s := by
  generalize e : s.toList = cs at h
  cases h with
  | bare hw => exact named_word (e ▸ hw)
  | escaped hw =>
    cases hw with
    | mk hc hw =>
      have hs : Spelling .identifier s.toList := by
        rw [e]
        exact .escaped hc hw
      refine ⟨fun first => ?_, '@', _, e, by decide⟩
      exact .token hs ⟨nofun, nofun⟩ fun r hr => hr.continuesWord

/-- A point or an opening bracket of type arguments ends before a name. -/
lemma reads_sign {first sign} (h : sign ∈ [".", "<"]) : Reads first isStart sign [] := by
  have signs : ∀ p ∈ punctuators, p.toList.any isStart = false := by decide
  have hp : ∀ s ∈ [".", "<"], s ∈ punctuators ∧ s ∉ ["(", ")", "[", "]", "\x7b", "\x7d"] ∧
      s.toList ≠ ['/'] := by decide
  obtain ⟨hp, hd, hs⟩ := hp sign h
  refine .token (.punctuator hp) ⟨nofun, fun _ => hd⟩ fun r hr x hx => ?_
  have hx := hr x hx
  refine ⟨fun hmem => ?_, fun hdigit => ?_, fun hcomment => hs hcomment.1⟩
  · have := List.any_eq_false.1 (signs _ hmem) x (by simp)
    exact this hx
  · have hstart := Text.startsWord_of_isDigit hdigit.2
    have hmark : x ≠ '@' := by
      rintro rfl
      exact absurd hdigit.2 (by decide)
    simp [isStart, hstart, hmark] at hx

/-- What starts with a character that ends a word may follow a word. -/
lemma before_isEnd {c cs} (h : isEnd c = true) : Before isEnd (c :: cs) := by
  rintro x ⟨⟩
  exact h

/-- Two names with a point between are a name. -/
lemma Named.dot {s t} (hs : Named s) (ht : Named t) : Named (s ++ "." ++ t) := by
  refine ⟨fun first => ?_, ?_⟩
  · refine ((hs.reads first).append_plain (reads_sign (by decide)) fun r _ => ?_).append_plain
      (ht.reads false) fun r _ => ht.before
    exact before_isEnd (by decide)
  · obtain ⟨c, w, hw, hc⟩ := hs.start
    exact ⟨c, w ++ '.' :: t.toList, by simp [hw], hc⟩

/-- A namespace is read as a name is. -/
lemma named_namespace {cs} (h : IsNamespace cs) : Named (String.ofList cs) := by
  induction h with
  | last hw => exact named_identifier (by rwa [String.toList_ofList])
  | @dot w cs hw _ ih =>
    have htext : String.ofList (w ++ '.' :: cs) = String.ofList w ++ "." ++ String.ofList cs := by
      rw [← String.ofList_append, ← String.ofList_append, List.append_assoc]
      rfl
    rw [htext]
    exact (named_identifier (by rwa [String.toList_ofList])).dot ih

/-- A closing bracket of type arguments. -/
lemma reads_close {first} : Reads first isEnd ">" [] := by
  have signs : ∀ p ∈ punctuators, p.toList.head? = some '>' → p = ">" ∨ p = ">=" := by
    decide
  have hs : ">".toList ≠ ['.'] ∧ ">".toList ≠ ['/'] := by decide
  refine .token (.punctuator (by decide)) ⟨nofun, fun _ => by decide⟩
    fun r hr x hx => ?_
  refine ⟨fun hmem => ?_, fun h => hs.1 h.1, fun h => hs.2 h.1⟩
  have hx := hr x hx
  rcases signs _ hmem (by simp) with e | e
  · have := congrArg String.toList e
    simp at this
  · have e : ['>', x] = ['>', '='] := by
      rw [← String.toList_ofList (l := ['>', x])]
      exact congrArg String.toList e
    cases e
    exact absurd hx (by decide)

/-- Type arguments after a name. -/
lemma Named.generic {s ts} (hs : Named s) (ht : ∀ t ∈ ts, Named t) (hne : ts ≠ []) :
    Named (s ++ "<" ++ Text.join ", " ts ++ ">") := by
  have hargs : Reads false isEnd (Text.join ", " ts) (ts.flatMap fun _ => []) :=
    .join (by decide) fun t h => (ht t h).reads false
  rw [List.flatMap_eq_nil_iff.2 fun _ _ => rfl] at hargs
  refine ⟨fun first => ?_, ?_⟩
  · refine (((hs.reads first).append_plain (reads_sign (by decide)) fun r _ => ?_).append_plain
      hargs fun r _ => ?_).append_plain reads_close fun r _ => ?_
    · exact before_isEnd (by decide)
    · obtain ⟨t, us, rfl⟩ := List.exists_cons_of_ne_nil hne
      cases us with
      | nil => exact (ht t (.head _)).before
      | cons u us =>
        rw [Text.join, String.toList_append, String.toList_append, List.append_assoc,
          List.append_assoc]
        · exact (ht t (.head _)).before
        · exact nofun
    · exact before_isEnd (by decide)
  · obtain ⟨c, w, hw, hc⟩ := hs.start
    exact ⟨c, w ++ '<' :: ((Text.join ", " ts).toList ++ ['>']), by simp [hw], hc⟩

/-- An array of a named type is read as a name is. -/
lemma Named.array {s} (hs : Named s) : Named (s ++ "[]") := by
  have hpair : Reads false isAny ("[" ++ "" ++ "]") [] :=
    .group .brackets (p := isAny) .empty before_any
  rw [show "[" ++ "" ++ "]" = "[]" by decide] at hpair
  refine ⟨fun first => ?_, ?_⟩
  · have h : Reads first isAny (s ++ "[]") [] := by
      refine (hs.reads first).append_plain hpair fun r _ => ?_
      exact before_isEnd (by decide)
    exact h.mono fun _ _ => rfl
  · obtain ⟨c, w, hw, hc⟩ := hs.start
    exact ⟨c, w ++ ['[', ']'], by simp [hw], hc⟩

mutual

/-- The text of a type whose parts are proper is a name. -/
theorem named_display : (t : TypeRef) → (∀ n ∈ t.nodes, Proper n) → Named t.display
  | ⟨name, origin, kind, artifact, args⟩, h => by
    rw [TypeRef.nodes, List.forall_mem_cons] at h
    have hargs := named_displayAll args h.2
    rw [TypeRef.display]
    split
    case isTrue =>
      cases e : TypeRef.displayAll args with
      | nil => exact Named.array (named_word (isWord_of_tests (by decide) (by decide)))
      | cons s ss => exact Named.array (hargs s (by rw [e]; exact .head _))
    case isFalse hk =>
      have hname : Named name := by
        rcases h.1.name with hw | ⟨e, -⟩
        · exact named_word hw
        · exact absurd (beq_iff_eq.2 e) hk
      split
      case isTrue => exact hname
      case isFalse hne =>
        refine hname.generic hargs ?_
        cases args with
        | nil => exact absurd rfl hne
        | cons => exact nofun

/-- Types all parts of which are proper are shown as names. -/
theorem named_displayAll : (ts : List TypeRef) → (∀ n ∈ TypeRef.nodesAll ts, Proper n) →
    ∀ s ∈ TypeRef.displayAll ts, Named s
  | [], _ => nofun
  | t :: ts, h => by
    rw [TypeRef.nodesAll, List.forall_mem_append] at h
    rw [TypeRef.displayAll, List.forall_mem_cons]
    exact ⟨named_display t h.1, named_displayAll ts h.2⟩

end

/-- The text of a fragment: balanced tokens, put together. -/
def IsFragment (text : String) : Prop :=
  ∃ ts, ts ≠ [] ∧ (∀ t ∈ ts, Spelling t.kind t.text.toList ∧ t.kind ≠ .directive) ∧
    Balanced ts ∧ text = joinTokens ts

/-- A mixed text with a token in front is read the same wherever it stands in its line. -/
lemma Mixed.lineStart {c cs f} (h : Mixed (c :: cs) f) (hc : c ≠ ' ') {r} (hr : Apart r)
    (directives lineStart : Bool) :
    bareTokens? directives lineStart (c :: cs ++ r) =
      bareTokens? directives false (c :: cs ++ r) := by
  generalize e : c :: cs = all at h
  cases h with
  | nil => cases e
  | space =>
    cases e
    exact absurd rfl hc
  | soft hsoft hcomment =>
    cases e
    have hl : ∀ ls, lexeme directives ls c (cs ++ r) = lexeme false false c cs :=
      fun _ => lexeme_apart hsoft hcomment hr
    cases hlex : lexeme false false c cs with
    | error e =>
      rw [List.cons_append, bareTokens?_stuck ((hl _).trans hlex),
        bareTokens?_stuck ((hl _).trans hlex)]
    | ok l =>
      obtain ⟨shape, n⟩ := l
      obtain ⟨kind, rfl, -⟩ := soft_of_lexeme hsoft hcomment hlex
      rw [List.cons_append, bareTokens?_token ((hl _).trans hlex),
        bareTokens?_token ((hl _).trans hlex)]
  | token hs hd _ he =>
    rw [List.append_assoc, bareTokens?_of_ends hs hd (he r hr), bareTokens?_of_ends hs hd (he r hr)]

/-- The text of tokens starts with the first of them. -/
lemma exists_joinTokens_cons {t : Token} {c w} (hw : t.text.toList = c :: w) (us : List Token) :
    ∃ rest, (joinTokens (t :: us)).toList = c :: rest := by
  obtain ⟨x, xs, hx, rfl, -⟩ := List.map_eq_cons_iff.1 (map_fst_roles : (roles (t :: us)).map _ = _)
  rw [joinTokens, hx, joinRoles, String.toList_append, hw]
  exact ⟨_, rfl⟩

/-- A fragment is read apart from what ends it, and its tokens are neutral if it has any. -/
lemma reads_fragment {first text} (h : IsFragment text) : Reads first isSeal text [text] := by
  obtain ⟨ts, hne, hs, hb, rfl⟩ := h
  have hm : Mixed (joinTokens ts).toList fun stack => waiting? stack ts := by
    have := mixed_joinRoles (placed_of_mem_roles hs)
    rwa [map_fst_roles] at this
  obtain ⟨hread, hneutral⟩ := hm.read
  have hstart : ∀ d ls r, Apart r → bareTokens? d ls ((joinTokens ts).toList ++ r) =
      bareTokens? d false ((joinTokens ts).toList ++ r) := by
    intro d ls r hr
    obtain ⟨t, us, rfl⟩ := List.exists_cons_of_ne_nil hne
    obtain ⟨c, w, hw⟩ := (hs t (.head _)).1.exists_cons
    obtain ⟨rest, hrest⟩ := exists_joinTokens_cons hw us
    have hspelling := (hs t (.head _)).1
    rw [hw] at hspelling
    rw [hrest] at hm ⊢
    exact hm.lineStart hspelling.ne_space hr d ls
  have hfirst : bareTokens? false true (joinTokens ts).toList =
      bareTokens? false false (joinTokens ts).toList := by
    simpa using hstart false true [] apart_nil
  refine ⟨bareTokens? false false (joinTokens ts).toList, ⟨?_, fun bs hbs => ?_⟩,
    fun d ls r _ hr => ?_⟩
  · rw [← hfirst, ← lexes_iff]
    simp
  · obtain ⟨hd, hw⟩ := hneutral bs hbs
    have hbalanced : Balanced (bs.map unread) := by
      rw [balanced_iff_waiting?, hw]
      exact hb.waiting?_eq
    have hbare : (bs.map unread).map Token.bare = bs := by
      rw [List.map_map]
      exact List.map_id bs
    rw [← hbare]
    refine hbalanced.neutral fun t ht => ?_
    obtain ⟨b, hb, rfl⟩ := List.mem_map.1 ht
    exact hd b hb
  · rw [hstart d ls r hr.apart]
    exact hread d r hr.apart

end SharpSmith.Fragment
