import Mathlib.Data.List.Chain
import SharpSmith.Proofs.Spacing
import SharpSmith.Proofs.Tiling
import SharpSmith.Proofs.TypeArguments

/-!
# Shifts to the right

A shift to the right is two signs that stand together. Spacing keeps them together unless it takes
the first for the end of a list of type arguments: `<` after an identifier and tokens that may stand
in a type make such a list, also where they are a comparison.
-/

namespace SharpSmith.Fragment

/-- A token goes with the one before it: it starts no earlier than where that ends, and is spaced
just if it starts later. -/
structure Follows (p c : Token) : Prop where
  finish_le : p.span.finish ≤ c.offset
  spaced_iff : c.spaced = true ↔ p.span.finish < c.offset

/-- Tokens that are read follow each other, and the first of them follows the position. -/
lemma follows_of_tokensFrom {directives p cs ts} (h : tokensFrom directives p 0 cs = .ok ts) :
    (∀ t ∈ ts.head?, p.offset ≤ t.offset ∧
      (t.spaced = true ↔ p.spaced = true ∨ p.offset < t.offset)) ∧ ts.IsChain Follows := by
  refine tokensFrom_induction
    (motive := fun p _ ts => (∀ t ∈ ts.head?, p.offset ≤ t.offset ∧
      (t.spaced = true ↔ p.spaced = true ∨ p.offset < t.offset)) ∧ ts.IsChain Follows)
    ?_ ?_ ?_ h
  · exact fun _ => ⟨by simp, .nil⟩
  · rintro p c cs n ts - ⟨hfirst, hchain⟩
    refine ⟨fun t ht => ?_, hchain⟩
    obtain ⟨hle, hspaced⟩ := hfirst t ht
    have hpos : 0 < Text.byteLength (c :: cs.take n) := by
      rw [Text.byteLength]
      exact Nat.add_pos_left c.utf8Size_pos _
    dsimp only at hle
    exact ⟨by omega, iff_of_true (hspaced.2 (.inl rfl)) (.inr (by omega))⟩
  · rintro p c cs kind n ts - ⟨hfirst, hchain⟩
    refine ⟨?_, List.isChain_cons.2 ⟨fun t ht => ?_, hchain⟩⟩
    · rintro _ ⟨⟩
      simp
    · obtain ⟨hle, hspaced⟩ := hfirst t ht
      rw [Text.byteLength_eq] at hle hspaced
      exact ⟨hle, hspaced.trans (or_iff_right Bool.false_ne_true)⟩

/-- Tokens one after another, each with a space before it where it is marked. -/
def spread : List Token → List Bool → String
  | t :: ts, g :: gs => (if g then " " else "") ++ t.text ++ spread ts gs
  | _, _ => ""

/-- A text is made of tokens and the spaces that stand before some of them. -/
structure Spaces (ts : List Token) (text : String) (gaps : List Bool) : Prop where
  length_eq : gaps.length = ts.length
  text_eq : text = spread ts gaps

/-- Which tokens get a space before them. -/
def gaps : List (Token × Role) → List Bool
  | [] => []
  | x :: xs => false :: List.zipWith spaceBetween (x :: xs) xs

/-- Tokens after another one are joined with the spaces that stand between them. -/
lemma joinAfter_eq_spread {x xs} :
    joinAfter x xs = spread (xs.map Prod.fst) (List.zipWith spaceBetween (x :: xs) xs) := by
  induction xs generalizing x with
  | nil => rfl
  | cons y ys ih => rw [joinAfter, ih, List.map_cons, List.zipWith_cons_cons, spread]

/-- Tokens are joined with a space before each that gets one. -/
lemma joinRoles_eq_spread {xs} : joinRoles xs = spread (xs.map Prod.fst) (gaps xs) := by
  cases xs with
  | nil => rfl
  | cons x xs =>
    rw [joinRoles, joinAfter_eq_spread, gaps, List.map_cons, spread]
    simp

/-- Tokens with spaces before some of them show where the spaces stand. -/
lemma spread_inj {ts gs gs'} (hts : ∀ t ∈ ts, Spelling t.kind t.text.toList)
    (hg : gs.length = ts.length) (hg' : gs'.length = ts.length)
    (h : spread ts gs = spread ts gs') : gs = gs' := by
  induction ts generalizing gs gs' with
  | nil => rw [List.length_eq_zero_iff.1 hg, List.length_eq_zero_iff.1 hg']
  | cons t ts ih =>
    obtain ⟨g, gs, rfl⟩ := List.exists_cons_of_length_eq_add_one hg
    obtain ⟨g', gs', rfl⟩ := List.exists_cons_of_length_eq_add_one hg'
    rw [List.forall_mem_cons] at hts
    obtain ⟨c, w, hw⟩ := hts.1.exists_cons
    have hc : c ≠ ' ' := by
      have hspelling := hts.1
      rw [hw] at hspelling
      exact hspelling.ne_space
    have hlist : ∀ g gs, (spread (t :: ts) (g :: gs)).toList =
        (if g then [' '] else []) ++ c :: w ++ (spread ts gs).toList := by
      intro g gs
      rw [spread, String.toList_append, String.toList_append, hw]
      cases g <;> rfl
    rw [← String.toList_inj, hlist, hlist] at h
    obtain rfl : g = g' := by
      cases g <;> cases g'
      · rfl
      · exact absurd (List.cons.inj h).1 hc
      · exact absurd (List.cons.inj h).1.symm hc
      · rfl
    rw [List.append_cancel_left_eq, String.toList_inj] at h
    rw [ih hts.2 (Nat.succ.inj hg) (Nat.succ.inj hg') h]

/-- Each token gets a space before it or none. -/
lemma length_gaps {xs} : (gaps xs).length = xs.length := by
  cases xs with
  | nil => rfl
  | cons x xs => simp [gaps]

/-- The spaces in the text of tokens stand where spacing puts them. -/
lemma spaces_joinTokens_iff {ts gs} (hts : ∀ t ∈ ts, Spelling t.kind t.text.toList) :
    Spaces ts (joinTokens ts) gs ↔ gs = gaps (roles ts) := by
  have hlength : (gaps (roles ts)).length = ts.length := by
    rw [length_gaps, ← List.length_map Prod.fst, map_fst_roles]
  have htext : joinTokens ts = spread ts (gaps (roles ts)) := by
    rw [joinTokens, joinRoles_eq_spread, map_fst_roles]
  constructor
  · rintro ⟨hgs, hspread⟩
    exact spread_inj hts hgs hlength (hspread.symm.trans htext)
  · rintro rfl
    exact ⟨hlength, htext⟩

/-- What spacing decides of two neighbours shows between them. -/
lemma getElem?_gaps {xs p c} {k : Nat} (hp : xs[k]? = some p) (hc : xs[k + 1]? = some c) :
    (gaps xs)[k + 1]? = some (spaceBetween p c) := by
  cases xs with
  | nil => cases hp
  | cons x xs =>
    rw [List.getElem?_cons_succ] at hc
    rw [gaps, List.getElem?_cons_succ, List.getElem?_zipWith, hp, hc]

/-- The signs of a shift to the right: a `>`, and a `>` or `>=` that starts where it ends. -/
structure Shift (p c : Token) : Prop where
  first : p.is ">" = true
  second : c.is ">" = true ∨ c.is ">=" = true
  adjacent : c.offset = p.span.finish

/-- The signs of a shift close a list of type arguments or stand between operands. -/
lemma role_of_greater {generic t p n j} (h : t.is ">" = true ∨ t.is ">=" = true) :
    role generic t p n j = if generic then .genericClose else .between := by
  simp only [Token.is, Bool.and_eq_true, beq_iff_eq] at h
  rcases h with ⟨hk, ht⟩ | ⟨hk, ht⟩ <;>
    cases generic <;> simp [role, signRole, infixOperators, hk, ht]

/-- A space parts the signs of a shift if only the first closes a list of type arguments. -/
lemma spaceBetween_of_shift {p c : Token} {g g' : Bool} (h : Shift p c) (hc : c.spaced = false) :
    spaceBetween (p, if g then .genericClose else .between)
      (c, if g' then .genericClose else .between) = (g && !g') := by
  obtain ⟨hfirst, hsecond, -⟩ := h
  simp only [Token.is, Bool.and_eq_true, beq_iff_eq] at hfirst hsecond
  rcases hsecond with ⟨hk, ht⟩ | ⟨hk, ht⟩ <;>
    cases g <;> cases g' <;> simp [spaceBetween, isShift, Token.is, hfirst, hc, hk, ht]

/-- In a text of tokens a space stands between the signs of a shift just if the first ends a list of
type arguments and the second stands in none; and the text shows where spaces stand. -/
def PartsShifts (ts : List Token) (text : String) : Prop :=
  ∃ gs, (∀ gs', Spaces ts text gs' ↔ gs' = gs) ∧
    ∀ k p c, ts[k]? = some p → ts[k + 1]? = some c → Shift p c →
      (gs[k + 1]? = some true ↔ InArguments none ts k ∧ ¬InArguments none ts (k + 1))

/-- The role of a token comes from what stands around it. -/
lemma getElem?_roles {ts x} {k : Nat} (h : (roles ts)[k]? = some x) :
    ∃ generic, ts[k]? = some x.1 ∧ (genericBrackets none 0 ts)[k]? = some generic ∧
      ∃ p n j, x.2 = role generic x.1 p n j := by
  obtain ⟨generic, hzip, hrole⟩ := getElem?_assignRoles h
  obtain ⟨ht, hgeneric⟩ := List.getElem?_zip_eq_some.1 hzip
  exact ⟨generic, ht, hgeneric, hrole⟩

/-- The role of a sign of a shift, and when it is that of a bracket. -/
lemma getElem?_roles_greater {ts t} {k : Nat} (ht : ts[k]? = some t)
    (h : t.is ">" = true ∨ t.is ">=" = true) :
    ∃ generic : Bool, (roles ts)[k]? = some (t, if generic then .genericClose else .between) ∧
      (generic = true ↔ InArguments none ts k) := by
  have hfst : ((roles ts).map Prod.fst)[k]? = some t := by rw [map_fst_roles, ht]
  rw [List.getElem?_map, Option.map_eq_some_iff] at hfst
  obtain ⟨⟨_, r⟩, hx, rfl⟩ := hfst
  obtain ⟨generic, -, hg, p, n, j, hr⟩ := getElem?_roles hx
  dsimp only at hr
  rw [role_of_greater h] at hr
  exact ⟨generic, hr ▸ hx, genericBrackets_greater ht h hg⟩

/-- Tokens of a text are joined so that shifts are parted only after type arguments. -/
lemma partsShifts_joinTokens {ts} (hts : ∀ t ∈ ts, Spelling t.kind t.text.toList)
    (hfollows : ts.IsChain Follows) : PartsShifts ts (joinTokens ts) := by
  refine ⟨gaps (roles ts), fun gs => spaces_joinTokens_iff hts, fun k p c hp hc hshift => ?_⟩
  have hspaced : c.spaced = false := by
    obtain ⟨hk, rfl⟩ := List.getElem?_eq_some_iff.1 hc
    obtain ⟨_, rfl⟩ := List.getElem?_eq_some_iff.1 hp
    have hfollows := List.isChain_iff_getElem.1 hfollows k hk
    rw [← Bool.not_eq_true, hfollows.spaced_iff, hshift.adjacent]
    exact Nat.lt_irrefl _
  obtain ⟨g, hrole, hg⟩ := getElem?_roles_greater hp (.inl hshift.first)
  obtain ⟨g', hrole', hg'⟩ := getElem?_roles_greater hc hshift.second
  rw [getElem?_gaps hrole hrole', spaceBetween_of_shift hshift hspaced, ← hg, ← hg',
    Option.some_inj, Bool.and_eq_true, Bool.not_eq_true', Bool.not_eq_true]

/-- The text of a statement or expression has a space between the signs of a shift just if the first
ends a list of type arguments and the second stands in none. All other shifts stay together. -/
theorem shifts_parted_iff (text : String) :
    (∀ s, Statement.parse text = .ok s →
      ∃ ts used, tokenize false text = .ok ts ∧ Statement.HoldsOnly used ts ∧
        PartsShifts used s.text) ∧
    ∀ e, Expression.parse text = .ok e →
      ∃ ts, tokenize false text = .ok ts ∧ PartsShifts ts e.text := by
  have hread : ∀ {ts}, tokenize false text = .ok ts →
      (∀ t ∈ ts, Spelling t.kind t.text.toList) ∧ ts.IsChain Follows := fun h =>
    ⟨fun t ht => (spelling_of_mem_tokensFrom h t ht).1, (follows_of_tokensFrom h).2⟩
  constructor
  · intro s h
    obtain ⟨ts, used, htokens, -, -, hholds, rfl⟩ := Statement.parse_eq_ok_iff.1 h
    obtain ⟨hspelling, hfollows⟩ := hread htokens
    have hchain : used.IsChain Follows := by
      rcases hholds with rfl | ⟨_, rfl, -⟩
      · exact hfollows
      · exact hfollows.left_of_append
    exact ⟨ts, used, htokens, hholds, partsShifts_joinTokens
      (fun t ht => hspelling t (mem_of_holdsOnly hholds t ht)) hchain⟩
  · intro e h
    obtain ⟨ts, htokens, -, -, he⟩ := tokenize_of_parse h
    obtain ⟨hspelling, hfollows⟩ := hread htokens
    rw [he]
    exact ⟨ts, htokens, partsShifts_joinTokens hspelling hfollows⟩

/-- The tokens of a comparison with a shift, `a < b >> c`. -/
def comparison : List Token :=
  [⟨.identifier, "a", 0, false⟩, ⟨.punctuator, "<", 2, true⟩, ⟨.identifier, "b", 4, true⟩,
    ⟨.punctuator, ">", 6, true⟩, ⟨.punctuator, ">", 7, false⟩, ⟨.identifier, "c", 9, true⟩]

/-- The tokens of a comparison with a shift after it. -/
lemma tokenize_comparison : tokenize false "a < b >> c" = .ok comparison := by decide +kernel

/-- A comparison with a shift after it is read with the shift parted. -/
lemma parse_comparison : Expression.parse "a < b >> c" = .ok ⟨"a<b> > c"⟩ := by decide +kernel

/-- A shift after a comparison is parted, and one that is assigned is not. -/
theorem shifts_parted_comparison :
    (∃ gs, Spaces comparison "a<b> > c" gs ∧ gs[4]? = some true) ∧
      ∃ ts used, tokenize false "flags>>=2;" = .ok ts ∧ Statement.HoldsOnly used ts ∧
        PartsShifts used "flags >>= 2;" := by
  refine ⟨?_, (shifts_parted_iff "flags>>=2;").1 ⟨.simple, "flags >>= 2;"⟩ (by decide +kernel)⟩
  obtain ⟨ts, hts, gs, hspaces, hgap⟩ := (shifts_parted_iff "a < b >> c").2 _ parse_comparison
  cases tokenize_comparison.symm.trans hts
  have hfirst : InArguments none comparison 3 :=
    .later (.here ⟨rfl, rfl, .passed rfl rfl (.last rfl)⟩ (by decide))
  have hsecond : ¬InArguments none comparison 4 := fun h =>
    Bool.false_ne_true ((genericBrackets_greater rfl (.inl rfl) (by decide)).2 h)
  have hshift : Shift ⟨.punctuator, ">", 6, true⟩ ⟨.punctuator, ">", 7, false⟩ :=
    ⟨rfl, .inl rfl, by decide⟩
  exact ⟨gs, (hspaces gs).2 rfl, (hgap 3 _ _ rfl rfl hshift).2 ⟨hfirst, hsecond⟩⟩

/-- Not every shift stays together: what is compared with one is taken for a type argument. -/
theorem shifts_parted :
    ¬∀ text e ts gs, Expression.parse text = .ok e → tokenize false text = .ok ts →
      Spaces ts e.text gs → ∀ k p c, ts[k]? = some p → ts[k + 1]? = some c → Shift p c →
        gs[k + 1]? ≠ some true := by
  intro h
  have hspaces : Spaces comparison "a<b> > c" [false, false, false, false, true, true] :=
    ⟨rfl, by decide⟩
  exact h _ _ _ _ parse_comparison tokenize_comparison hspaces 3 _ _ rfl rfl
    ⟨rfl, .inl rfl, by decide⟩ rfl

end SharpSmith.Fragment
