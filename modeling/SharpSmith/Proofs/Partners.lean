import Mathlib.Data.List.Induction
import SharpSmith.Proofs.Nesting

/-!
# Partners

Delimiters are paired just if they are nested, and then every opener has its own closer as its
partner. `PairAt` says by what stands between them which two delimiters are a pair; it determines
either of them by the other, and no two pairs cross. `Open` keeps what waits for a closer while
tokens are read, so it also tells where pairing fails.
-/

namespace SharpSmith.Fragment

/-- Delimiters that are nested: each opener is followed by its own closer, with nested ones
between. -/
inductive Bracketed : List String → Prop where
  | nil : Bracketed []
  | group {o c ws vs} :
    Fits o c →
    Bracketed ws →
    Bracketed vs →
    Bracketed (o :: (ws ++ c :: vs))

/-- Whether a token is a parenthesis, a bracket or a brace. -/
def Token.isDelimiter (t : Token) : Bool :=
  t.kind == .punctuator && ["(", ")", "[", "]", "\x7b", "\x7d"].contains t.text

/-- The delimiters among some tokens. -/
def delimiters (ts : List Token) : List String :=
  (ts.filter Token.isDelimiter).map Token.text

/-- The tokens at places `i` and `j` are an opener and its own closer. -/
def PairAt (ts : List Token) (i j : Nat) : Prop :=
  ∃ before o mid c after, ts = before ++ o :: (mid ++ c :: after) ∧ before.length = i ∧
    i + mid.length + 1 = j ∧ o.opens = true ∧ c.closes? = some o.text ∧ Balanced mid

/-- Tokens all of whose closers close an opener among them, and the openers that are left open, the
innermost first, each with its place. -/
inductive Open : List (Nat × Token) → List Token → Prop where
  | nil {ts} :
    Balanced ts →
    Open [] ts
  | cons {stack ts o us} :
    Open stack ts →
    o.opens = true →
    Balanced us →
    Open ((ts.length, o) :: stack) (ts ++ o :: us)

/-- Where and why delimiters are not nested: at the first closer that has no opener or does not
close the innermost one, or else at the last opener that is left open. -/
inductive Misfit : List Token → Located → Prop where
  | unexpected {before t after} :
    Open [] before →
    t.closes = true →
    Misfit (before ++ t :: after) (Fault.at (.unexpected t.text) t)
  | mismatched {before t after i o stack opening} :
    Open ((i, o) :: stack) before →
    t.closes? = some opening →
    o.text ≠ opening →
    Misfit (before ++ t :: after) (Fault.at (.mismatched t.text o.text) t)
  | unclosed {ts i o stack} :
    Open ((i, o) :: stack) ts →
    Misfit ts (Fault.at (.unclosed o.text) o)

/-- A delimiter opens or closes. -/
lemma isDelimiter_eq (t : Token) : t.isDelimiter = (t.opens || t.closes) := by
  by_cases hk : t.kind = .punctuator
  · by_cases hmem : t.text ∈ ["(", ")", "[", "]", "\x7b", "\x7d"]
    · simp only [List.mem_cons, List.not_mem_nil, or_false] at hmem
      rcases hmem with e | e | e | e | e | e <;>
        simp [Token.isDelimiter, Token.opens, Token.closes, Token.closes?, Token.is, hk, e]
    · simp only [List.mem_cons, List.not_mem_nil, or_false, not_or] at hmem
      simp [Token.isDelimiter, Token.opens, Token.closes, Token.closes?, Token.is, hmem]
  · simp [Token.isDelimiter, hk, opens_of_kind hk, closes_of_kind hk]

/-- The delimiters of balanced tokens are nested. -/
lemma Balanced.bracketed {ts} (h : Balanced ts) : Bracketed (delimiters ts) := by
  induction h with
  | nil => exact .nil
  | token ho hc _ ih =>
    rwa [delimiters, List.filter_cons_of_neg (by simp [isDelimiter_eq, ho, hc])]
  | @group o ts c us ho hc _ _ ih₁ ih₂ =>
    have hc' := closes_of_closes? hc
    rw [delimiters, List.filter_cons_of_pos (by simp [isDelimiter_eq, ho]), List.filter_append,
      List.filter_cons_of_pos (by simp [isDelimiter_eq, hc']), List.map_cons, List.map_append,
      List.map_cons]
    exact .group (fits_of_closes? ho hc).2.2 ih₁ ih₂

/-- Tokens without delimiters may stand before balanced ones. -/
lemma Balanced.skip {ts us} (ht : ∀ t ∈ ts, ¬t.isDelimiter = true) (hu : Balanced us) :
    Balanced (ts ++ us) := by
  induction ts with
  | nil => exact hu
  | cons t ts ih =>
    obtain ⟨ht, hts⟩ := List.forall_mem_cons.1 ht
    simp only [isDelimiter_eq, Bool.or_eq_true, not_or, Bool.not_eq_true] at ht
    exact .token ht.1 ht.2 (ih hts)

/-- Tokens whose delimiters are nested are balanced. -/
lemma Bracketed.balanced {ws} (h : Bracketed ws) : ∀ ts, delimiters ts = ws → Balanced ts := by
  induction h with
  | nil =>
    intro ts e
    rw [delimiters, List.map_eq_nil_iff, List.filter_eq_nil_iff] at e
    have := Balanced.skip e .nil
    rwa [List.append_nil] at this
  | @group opening closing ws vs hf _ _ ih₁ ih₂ =>
    intro ts e
    obtain ⟨o, rest, ho, rfl, e⟩ := List.map_eq_cons_iff.1 e
    obtain ⟨before, after, rfl, hbefore, hodel, rfl⟩ := List.filter_eq_cons_iff.1 ho
    obtain ⟨mid, rest, he, hmid, e⟩ := List.map_eq_append_iff.1 e
    obtain ⟨c, last, rfl, rfl, hlast⟩ := List.map_eq_cons_iff.1 e
    obtain ⟨us, more, rfl, rfl, hmore⟩ := List.filter_eq_append_iff.1 he
    obtain ⟨skipped, vs, rfl, hskipped, hcdel, rfl⟩ := List.filter_eq_cons_iff.1 hmore
    have hpunct : ∀ t : Token, t.isDelimiter = true → t.bare = (.punctuator, t.text) := by
      intro t ht
      simp only [Token.isDelimiter, Bool.and_eq_true, beq_iff_eq] at ht
      rw [Token.bare, ht.1]
    obtain ⟨hopens, hcloses⟩ := closes?_of_fits hf (hpunct o hodel) (hpunct c hcdel)
    have hinner : Balanced (us ++ skipped) := by
      refine ih₁ _ ?_
      rw [delimiters, List.filter_append, List.filter_eq_nil_iff.2 hskipped, List.append_nil, hmid]
    have hgroup := Balanced.group hopens hcloses hinner (ih₂ vs hlast)
    refine .skip hbefore ?_
    rwa [List.append_assoc] at hgroup

/-- Tokens are balanced just if their delimiters are nested. -/
lemma balanced_iff_bracketed {ts} : Balanced ts ↔ Bracketed (delimiters ts) :=
  ⟨Balanced.bracketed, fun h => h.balanced ts rfl⟩

/-- An opener stands before its closer. -/
lemma PairAt.lt {ts i j} (h : PairAt ts i j) : i < j := by
  obtain ⟨_, _, _, _, _, -, -, rfl, -⟩ := h
  omega

/-- The two tokens of a pair. -/
lemma PairAt.exists_fits {ts i j} (h : PairAt ts i j) :
    ∃ o c, ts[i]? = some o ∧ ts[j]? = some c ∧ o.opens = true ∧ c.closes? = some o.text := by
  obtain ⟨before, o, mid, c, after, rfl, rfl, rfl, ho, hc, -⟩ := h
  refine ⟨o, c, by simp, ?_, ho, hc⟩
  have hplace : before.length + mid.length + 1 = (before ++ o :: mid).length := by
    simp [Nat.add_assoc]
  rw [← List.cons_append, ← List.append_assoc, hplace]
  simp

/-- Both tokens of a pair are delimiters. -/
lemma PairAt.isDelimiter {ts i j} (h : PairAt ts i j) :
    (∃ o, ts[i]? = some o ∧ o.isDelimiter = true) ∧
      ∃ c, ts[j]? = some c ∧ c.isDelimiter = true := by
  obtain ⟨o, c, hi, hj, ho, hc⟩ := h.exists_fits
  refine ⟨⟨o, hi, ?_⟩, c, hj, ?_⟩
  · rw [isDelimiter_eq, ho, Bool.true_or]
  · rw [isDelimiter_eq, closes_of_closes? hc, Bool.or_true]

/-- A pair stays one with more tokens after it. -/
lemma PairAt.append {ts i j} (us : List Token) (h : PairAt ts i j) : PairAt (ts ++ us) i j := by
  obtain ⟨before, o, mid, c, after, rfl, hi, hj, h⟩ := h
  exact ⟨before, o, mid, c, after ++ us, by simp, hi, hj, h⟩

/-- A pair stays one with more tokens before it, at later places. -/
lemma PairAt.after {us i j} (ts : List Token) (h : PairAt us i j) :
    PairAt (ts ++ us) (ts.length + i) (ts.length + j) := by
  obtain ⟨before, o, mid, c, after, rfl, rfl, rfl, h⟩ := h
  exact ⟨ts ++ before, o, mid, c, after, by simp, by simp, by omega, h⟩

/-- Where one pair starts before another, the tokens between the two openers are the first ones
inside of the pair that starts first. -/
lemma exists_between {before o : _} {inner before' o' inner' : _}
    (e : before ++ (o : Token) :: inner = before' ++ o' :: inner')
    (h : before.length < before'.length) :
    ∃ between, before' = before ++ o :: between ∧ inner = between ++ o' :: inner' := by
  rcases List.append_eq_append_iff.1 e with ⟨w, rfl, hw⟩ | ⟨w, rfl, -⟩
  · cases w with
    | nil => simp at h
    | cons x w =>
      obtain ⟨rfl, rfl⟩ := List.cons.inj hw
      exact ⟨w, rfl, rfl⟩
  · simp only [List.length_append] at h
    omega

/-- Balanced tokens do not end inside of a group. -/
lemma not_balanced_of_opens {ts o us} (ho : o.opens = true) (hu : Balanced us) :
    ¬Balanced (ts ++ o :: us) := by
  intro h
  have hw : waiting? [] (ts ++ o :: us) = some [] := h.waiting?_eq
  rw [waiting?_append] at hw
  obtain ⟨stack, -, hw⟩ := Option.bind_eq_some_iff.1 hw
  rw [waiting?_cons, nest?_opens ho, Option.bind_some, hu.waiting?_eq] at hw
  cases hw

/-- Balanced tokens do not start inside of a group. -/
lemma not_balanced_of_closes {ts c us} (hc : c.closes = true) (ht : Balanced ts) :
    ¬Balanced (ts ++ c :: us) := by
  intro h
  have hw : waiting? [] (ts ++ c :: us) = some [] := h.waiting?_eq
  obtain ⟨opening, hopening⟩ := Option.isSome_iff_exists.1 hc
  rw [waiting?_append, ht.waiting?_eq, Option.bind_some, waiting?_cons] at hw
  obtain ⟨stack, hn, -⟩ := Option.bind_eq_some_iff.1 hw
  cases eq_cons_of_nest? hopening hn

/-- More openers may wait outside. -/
lemma waiting?_append_stack {stack ts stack'} (outer : List String)
    (h : waiting? stack ts = some stack') :
    waiting? (stack ++ outer) ts = some (stack' ++ outer) := by
  induction ts generalizing stack with
  | nil =>
    cases h
    rfl
  | cons t ts ih =>
    rw [waiting?_cons] at h ⊢
    obtain ⟨next, hn, hw⟩ := Option.bind_eq_some_iff.1 h
    rw [Option.bind_eq_some_iff]
    refine ⟨next ++ outer, ?_, ih hw⟩
    cases ho : t.opens with
    | true =>
      rw [nest?_opens ho] at hn ⊢
      cases hn
      rfl
    | false =>
      cases hc : t.closes? with
      | none =>
        have hc' : t.closes = false := by rw [Token.closes, hc]; rfl
        rw [nest?_token ho hc'] at hn ⊢
        cases hn
        rfl
      | some opening =>
        rw [eq_cons_of_nest? hc hn]
        exact nest?_closes hc

/-- A closer is the closer of one opener only. -/
lemma PairAt.left_unique {ts i i' j} (h : PairAt ts i j) (h' : PairAt ts i' j) : i = i' := by
  have key : ∀ {i i'}, PairAt ts i j → PairAt ts i' j → ¬i < i' := by
    rintro _ _ ⟨before, o, mid, c, after, e, rfl, hj, -, -, hmid⟩
      ⟨before', o', mid', c', after', e', rfl, hj', ho', -, hmid'⟩ hlt
    obtain ⟨between, rfl, hin⟩ := exists_between (e.symm.trans e') hlt
    rw [← List.cons_append, ← List.append_assoc] at hin
    simp only [List.length_append, List.length_cons] at hj hj'
    obtain ⟨rfl, -⟩ := List.append_inj hin (by
      simp only [List.length_append, List.length_cons]
      omega)
    exact not_balanced_of_opens ho' hmid' hmid
  rcases Nat.lt_trichotomy i i' with hlt | rfl | hlt
  · exact absurd hlt (key h h')
  · rfl
  · exact absurd hlt (key h' h)

/-- An opener is the opener of one closer only. -/
lemma PairAt.right_unique {ts i j j'} (h : PairAt ts i j) (h' : PairAt ts i j') : j = j' := by
  have key : ∀ {j j'}, PairAt ts i j → PairAt ts i j' → ¬j < j' := by
    rintro _ _ ⟨before, o, mid, c, after, e, hi, rfl, -, hc, hmid⟩
      ⟨before', o', mid', c', after', e', hi', rfl, -, -, hmid'⟩ hlt
    obtain ⟨rfl, hrest⟩ := List.append_inj (e.symm.trans e') (hi.trans hi'.symm)
    obtain ⟨-, hrest⟩ := List.cons.inj hrest
    have hlength : mid.length < mid'.length := by omega
    obtain ⟨between, rfl, -⟩ := exists_between hrest hlength
    exact not_balanced_of_closes (closes_of_closes? hc) hmid hmid'
  rcases Nat.lt_trichotomy j j' with hlt | rfl | hlt
  · exact absurd hlt (key h h')
  · rfl
  · exact absurd hlt (key h' h)

/-- A place is not both the opener and the closer of a pair. -/
lemma PairAt.not_after {ts i j k} (h : PairAt ts i j) : ¬PairAt ts j k := by
  intro h'
  obtain ⟨_, c, -, hj, -, hc⟩ := h.exists_fits
  obtain ⟨o, _, hj', -, ho, -⟩ := h'.exists_fits
  cases hj.symm.trans hj'
  rw [opens_of_closes (closes_of_closes? hc)] at ho
  cases ho

/-- A pair that starts inside of another one ends inside of it. -/
lemma PairAt.lt_of_lt {ts i j k l} (h : PairAt ts i j) (h' : PairAt ts k l) (hik : i < k)
    (hkj : k < j) : l < j := by
  by_contra hle
  have hne : l ≠ j := fun e => by
    subst e
    exact Nat.ne_of_lt hik (h.left_unique h')
  obtain ⟨before, o, mid, c, after, e, rfl, rfl, -, hc, hmid⟩ := h
  obtain ⟨before', o', mid', c', after', e', rfl, rfl, ho', -, hmid'⟩ := h'
  obtain ⟨between, rfl, hin⟩ := exists_between (e.symm.trans e') hik
  simp only [List.length_append, List.length_cons] at hkj hle hne
  -- the part of the first pair after the second opener is the first part of the second pair
  rw [← List.cons_append, ← List.append_assoc] at hin
  obtain ⟨rest, rfl, hrest⟩ : ∃ rest, mid = between ++ o' :: rest ∧
      rest ++ c :: after = mid' ++ c' :: after' := by
    rw [List.append_assoc, List.cons_append] at hin
    obtain ⟨rest, rfl, hrest⟩ := exists_between hin.symm (by omega)
    exact ⟨rest, rfl, hrest.symm⟩
  obtain ⟨last, rfl, -⟩ := exists_between hrest
    (by simp only [List.length_append, List.length_cons] at hle hne; omega)
  have hwait : waiting? [] (between ++ o' :: rest) = some [] := hmid.waiting?_eq
  rw [waiting?_append] at hwait
  obtain ⟨stack, -, hwait⟩ := Option.bind_eq_some_iff.1 hwait
  rw [waiting?_cons, nest?_opens ho', Option.bind_some] at hwait
  have hwait' : waiting? [] (rest ++ c :: last) = some [] := hmid'.waiting?_eq
  rw [waiting?_append] at hwait'
  obtain ⟨stack', hstack', -⟩ := Option.bind_eq_some_iff.1 hwait'
  rw [show o'.text :: stack = [] ++ (o'.text :: stack) from rfl,
    waiting?_append_stack _ hstack'] at hwait
  simp at hwait

/-- A pair that ends inside of another one starts inside of it. -/
lemma PairAt.lt_of_gt {ts i j k l} (h : PairAt ts i j) (h' : PairAt ts l k) (hik : i < k)
    (hkj : k < j) : i < l := by
  by_contra hle
  rcases Nat.lt_or_eq_of_le (Nat.le_of_not_lt hle) with hlt | rfl
  · exact absurd (h'.lt_of_lt h hlt hik) (Nat.lt_asymm hkj)
  · exact Nat.ne_of_lt hkj (h'.right_unique h)

/-- The pairs of tokens that start at place `index`: each is an opener and its closer, and every
delimiter is in one of them. -/
structure Pairs (index : Nat) (ts : List Token) (pairs : List (Nat × Nat)) : Prop where
  sound : ∀ p ∈ pairs, ∃ i j, PairAt ts i j ∧ p = (index + i, index + j)
  full : ∀ i t, ts[i]? = some t → t.isDelimiter = true →
    ∃ p ∈ pairs, p.1 = index + i ∨ p.2 = index + i

/-- A token that is no delimiter adds no pair. -/
lemma Pairs.token {index ts pairs} {t : Token} (h : Pairs (index + 1) ts pairs)
    (ht : t.isDelimiter = false) : Pairs index (t :: ts) pairs where
  sound p hp := by
    obtain ⟨i, j, hij, rfl⟩ := h.sound p hp
    refine ⟨1 + i, 1 + j, hij.after [t], ?_⟩
    rw [Nat.add_assoc, Nat.add_assoc]
  full i u hu hdel := by
    cases i with
    | zero =>
      cases hu
      rw [ht] at hdel
      cases hdel
    | succ i =>
      obtain ⟨p, hp, hi⟩ := h.full i u hu hdel
      exact ⟨p, hp, by omega⟩

/-- A group adds its own pair to those inside of it and those after it. -/
lemma Pairs.group {index ts us inner outer} {o c : Token} (ho : o.opens = true)
    (hc : c.closes? = some o.text) (ht : Balanced ts) (hinner : Pairs (index + 1) ts inner)
    (houter : Pairs (index + 1 + ts.length + 1) us outer) :
    Pairs index (o :: (ts ++ c :: us)) (inner ++ (index, index + 1 + ts.length) :: outer) where
  sound p hp := by
    rw [List.mem_append, List.mem_cons] at hp
    rcases hp with hp | rfl | hp
    · obtain ⟨i, j, hij, rfl⟩ := hinner.sound p hp
      refine ⟨1 + i, 1 + j, (hij.after [o]).append (c :: us), ?_⟩
      rw [Nat.add_assoc, Nat.add_assoc]
    · refine ⟨0, 1 + ts.length, ⟨[], o, ts, c, us, rfl, rfl, by omega, ho, hc, ht⟩, ?_⟩
      rw [Nat.add_assoc, Nat.add_zero]
    · obtain ⟨i, j, hij, rfl⟩ := houter.sound p hp
      have hafter := hij.after (o :: (ts ++ [c]))
      rw [List.cons_append, List.append_assoc] at hafter
      refine ⟨_, _, hafter, ?_⟩
      simp only [List.length_cons, List.length_append, List.length_nil, Prod.mk.injEq]
      omega
  full i u hu hdel := by
    rcases Nat.lt_trichotomy i (ts.length + 1) with hlt | rfl | hlt
    · cases i with
      | zero => exact ⟨_, List.mem_append_right _ (.head _), .inl rfl⟩
      | succ i =>
        rw [List.getElem?_cons_succ, List.getElem?_append_left (by omega)] at hu
        obtain ⟨p, hp, hi⟩ := hinner.full i u hu hdel
        exact ⟨p, List.mem_append_left _ hp, by omega⟩
    · exact ⟨_, List.mem_append_right _ (.head _), .inr (by omega)⟩
    · obtain ⟨k, rfl⟩ := Nat.exists_eq_add_of_lt hlt
      rw [show ts.length + 1 + k + 1 = ts.length + (k + 1) + 1 by omega, List.getElem?_cons_succ,
        List.getElem?_append_right (by omega), Nat.add_sub_cancel_left,
        List.getElem?_cons_succ] at hu
      obtain ⟨p, hp, hi⟩ := houter.full k u hu hdel
      exact ⟨p, List.mem_append_right _ (.tail _ hp), by omega⟩

/-- Every delimiter stands in a pair. -/
lemma Pairs.exists_pairAt {ts pairs t} {i : Nat} (h : Pairs 0 ts pairs) (ht : ts[i]? = some t)
    (hdel : t.isDelimiter = true) : ∃ j, PairAt ts i j ∨ PairAt ts j i := by
  obtain ⟨p, hp, hi⟩ := h.full i t ht hdel
  obtain ⟨a, b, hab, rfl⟩ := h.sound p hp
  simp only [Nat.zero_add] at hi
  rcases hi with rfl | rfl
  · exact ⟨b, .inl hab⟩
  · exact ⟨a, .inr hab⟩

/-- The pairs of balanced tokens are found, and what follows is paired as if they were not there. -/
lemma Balanced.exists_pairs {ts} (h : Balanced ts) (index : Nat) (stack : List (Nat × Token))
    (us : List Token) :
    ∃ pairs, Pairs index ts pairs ∧
      Delimiters.pairsFrom index stack (ts ++ us) =
        (Delimiters.pairsFrom (index + ts.length) stack us).map (pairs ++ ·) := by
  induction h generalizing index stack us with
  | nil =>
    refine ⟨[], ⟨by simp, by simp⟩, ?_⟩
    show Delimiters.pairsFrom index stack us = _
    cases Delimiters.pairsFrom index stack us <;> rfl
  | @token t ts ho hc _ ih =>
    obtain ⟨pairs, hpairs, e⟩ := ih (index + 1) stack us
    refine ⟨pairs, hpairs.token (by rw [isDelimiter_eq, ho, hc]; rfl), ?_⟩
    have hn : t.closes? = none := by simpa [Token.closes] using hc
    rw [List.cons_append, Delimiters.pairsFrom.eq_def]
    simp only [ho, hn, Bool.false_eq_true, if_false]
    rw [e, List.length_cons, Nat.add_assoc, Nat.add_comm 1]
  | @group o ts c vs ho hc hts _ ih₁ ih₂ =>
    obtain ⟨inner, hinner, einner⟩ := ih₁ (index + 1) ((index, o) :: stack) (c :: (vs ++ us))
    obtain ⟨outer, houter, eouter⟩ := ih₂ (index + 1 + ts.length + 1) stack us
    refine ⟨_, .group ho hc hts hinner houter, ?_⟩
    rw [List.cons_append, List.append_assoc, List.cons_append, Delimiters.pairsFrom.eq_def]
    simp only [ho, if_true]
    rw [einner, Delimiters.pairsFrom.eq_def]
    simp only [opens_of_closes (closes_of_closes? hc), hc, Bool.false_eq_true, if_false,
      beq_self_eq_true, if_true]
    rw [eouter]
    have hlength : index + (o :: (ts ++ c :: vs)).length =
        index + 1 + ts.length + 1 + vs.length := by
      simp only [List.length_cons, List.length_append]
      omega
    rw [hlength]
    cases Delimiters.pairsFrom (index + 1 + ts.length + 1 + vs.length) stack us <;>
      simp [Except.map]

/-- Every delimiter of balanced tokens is in a pair. -/
lemma Balanced.exists_pairAt {ts t} {i : Nat} (h : Balanced ts) (ht : ts[i]? = some t)
    (hdel : t.isDelimiter = true) : ∃ j, PairAt ts i j ∨ PairAt ts j i := by
  obtain ⟨pairs, hpairs, -⟩ := h.exists_pairs 0 [] []
  exact hpairs.exists_pairAt ht hdel

/-- Every opener of balanced tokens has its closer. -/
lemma Balanced.exists_closer {ts t} {i : Nat} (h : Balanced ts) (ht : ts[i]? = some t)
    (ho : t.opens = true) : ∃ j, PairAt ts i j := by
  obtain ⟨j, hpair | hpair⟩ := h.exists_pairAt ht (by rw [isDelimiter_eq, ho, Bool.true_or])
  · exact ⟨j, hpair⟩
  · obtain ⟨_, c, -, hc, -, hcloses⟩ := hpair.exists_fits
    cases ht.symm.trans hc
    rw [opens_of_closes (closes_of_closes? hcloses)] at ho
    cases ho

/-- Every closer of balanced tokens has its opener. -/
lemma Balanced.exists_opener {ts t} {j : Nat} (h : Balanced ts) (ht : ts[j]? = some t)
    (hc : t.closes = true) : ∃ i, PairAt ts i j := by
  obtain ⟨i, hpair | hpair⟩ := h.exists_pairAt ht (by rw [isDelimiter_eq, hc, Bool.or_true])
  · obtain ⟨o, _, ho, -, hopens, -⟩ := hpair.exists_fits
    cases ht.symm.trans ho
    rw [opens_of_closes hc] at hopens
    cases hopens
  · exact ⟨i, hpair⟩

/-- Balanced tokens after others leave open what is open. -/
lemma Open.append {stack ts us} (h : Open stack ts) (hu : Balanced us) : Open stack (ts ++ us) := by
  cases h with
  | nil ht => exact .nil (ht.append hu)
  | cons h ho ht =>
    rw [List.append_assoc, List.cons_append]
    exact .cons h ho (ht.append hu)

/-- What follows open tokens is paired with the openers that wait in them. -/
lemma Open.exists_pairsFrom {stack ts} (h : Open stack ts) (us : List Token) :
    ∃ pairs, Delimiters.pairsFrom 0 [] (ts ++ us) =
      (Delimiters.pairsFrom ts.length stack us).map (pairs ++ ·) := by
  induction h generalizing us with
  | nil ht =>
    obtain ⟨pairs, -, e⟩ := ht.exists_pairs 0 [] us
    rw [Nat.zero_add] at e
    exact ⟨pairs, e⟩
  | @cons stack ts o vs _ ho hv ih =>
    obtain ⟨before, e⟩ := ih (o :: (vs ++ us))
    obtain ⟨after, -, eafter⟩ := hv.exists_pairs (ts.length + 1) ((ts.length, o) :: stack) us
    refine ⟨before ++ after, ?_⟩
    rw [List.append_assoc, List.cons_append, e, Delimiters.pairsFrom.eq_def]
    simp only [ho, if_true]
    rw [eafter, List.length_append, List.length_cons, Nat.add_assoc, Nat.add_comm 1]
    cases Delimiters.pairsFrom (ts.length + (vs.length + 1)) ((ts.length, o) :: stack) us <;>
      simp [Except.map]

/-- A failure of pairing is the same after open tokens. -/
lemma Open.partners_error {stack ts us e} (h : Open stack ts)
    (he : Delimiters.pairsFrom ts.length stack us = .error e) :
    Delimiters.partners (ts ++ us) = .error e := by
  obtain ⟨pairs, epairs⟩ := h.exists_pairsFrom us
  rw [Delimiters.partners, epairs, he]
  rfl

/-- What does not nest is refused where it says. -/
lemma Misfit.partners {ts e} (h : Misfit ts e) : Delimiters.partners ts = .error e := by
  cases h with
  | @unexpected before t after hb ht =>
    obtain ⟨opening, hopening⟩ := Option.isSome_iff_exists.1 ht
    refine hb.partners_error ?_
    rw [Delimiters.pairsFrom.eq_def]
    simp only [opens_of_closes ht, hopening, Bool.false_eq_true, if_false]
  | mismatched hb ht hne =>
    refine hb.partners_error ?_
    rw [Delimiters.pairsFrom.eq_def]
    simp [opens_of_closes (closes_of_closes? ht), ht, hne]
  | unclosed hb =>
    have hend : Delimiters.partners (ts ++ []) = _ :=
      hb.partners_error (by rw [Delimiters.pairsFrom.eq_def])
    rwa [List.append_nil] at hend

/-- All closers of some tokens fit, or the first that does not is where they do not nest, whatever
follows. -/
lemma exists_open_or_misfit (ts : List Token) :
    (∃ stack, Open stack ts) ∨ ∃ e, ∀ us, Misfit (ts ++ us) e := by
  induction ts using List.reverseRecOn with
  | nil => exact .inl ⟨[], .nil .nil⟩
  | append_singleton ts t ih =>
    simp only [List.append_assoc, List.singleton_append]
    rcases ih with ⟨stack, h⟩ | ⟨e, h⟩
    case inr => exact .inr ⟨e, fun us => h (t :: us)⟩
    cases ho : t.opens with
    | true => exact .inl ⟨_, .cons h ho .nil⟩
    | false =>
      cases hc : t.closes? with
      | none => exact .inl ⟨stack, h.append (.token ho (by rw [Token.closes, hc]; rfl) .nil)⟩
      | some opening =>
        cases h with
        | nil hb => exact .inr ⟨_, fun us => .unexpected (.nil hb) (closes_of_closes? hc)⟩
        | @cons stack ts o us h ho' hu =>
          by_cases hfits : o.text = opening
          · have hgroup : Balanced (o :: (us ++ [t])) := .group ho' (by rw [hfits, hc]) hu .nil
            have hopen := h.append hgroup
            rw [← List.cons_append, ← List.append_assoc] at hopen
            exact .inl ⟨stack, hopen⟩
          · exact .inr ⟨_, fun vs => .mismatched (.cons h ho' hu) hc hfits⟩

/-- Pairing fails just where and why the delimiters do not nest. -/
lemma partners_error_iff {ts e} : Delimiters.partners ts = .error e ↔ Misfit ts e := by
  refine ⟨fun h => ?_, Misfit.partners⟩
  have hsame : ∀ e', Misfit ts e' → Misfit ts e := fun e' h' => by
    cases h.symm.trans h'.partners
    exact h'
  rcases exists_open_or_misfit ts with ⟨stack, hopen⟩ | ⟨e', hmisfit⟩
  · cases hopen with
    | nil hb =>
      obtain ⟨p, hp⟩ := exists_partners_iff.2 hb
      cases h.symm.trans hp
    | cons hopen ho hu => exact hsame _ (.unclosed (.cons hopen ho hu))
  · have := hmisfit []
    rw [List.append_nil] at this
    exact hsame e' this

/-- The partner of a place is the other place of its pair. -/
lemma pairAt_of_partnerIn? {ts : List Token} {pairs i j} (h : ∀ p ∈ pairs, PairAt ts p.1 p.2)
    (hj : Delimiters.partnerIn? pairs i = some j) : PairAt ts i j ∨ PairAt ts j i := by
  obtain ⟨p, hp, hj⟩ := List.exists_of_findSome?_eq_some hj
  have hpair := h p hp
  split at hj
  case isTrue e =>
    cases hj
    exact .inl (e ▸ hpair)
  case isFalse =>
    split at hj
    case isTrue e =>
      cases hj
      exact .inr (e ▸ hpair)
    case isFalse => cases hj

/-- Each pair that is found is one. -/
lemma Pairs.pairAt {ts pairs} (h : Pairs 0 ts pairs) : ∀ p ∈ pairs, PairAt ts p.1 p.2 := by
  intro p hp
  obtain ⟨i, j, hpair, rfl⟩ := h.sound p hp
  simpa using hpair

/-- A token has another one for its partner just if the two make up a pair. -/
lemma Pairs.partnerIn?_eq_some_iff {ts pairs i j} (h : Pairs 0 ts pairs) :
    Delimiters.partnerIn? pairs i = some j ↔ PairAt ts i j ∨ PairAt ts j i := by
  have hfound : ∀ {k}, Delimiters.partnerIn? pairs i = some k → PairAt ts i k ∨ PairAt ts k i :=
    pairAt_of_partnerIn? h.pairAt
  refine ⟨hfound, fun hpair => ?_⟩
  obtain ⟨t, ht, hdel⟩ : ∃ t, ts[i]? = some t ∧ t.isDelimiter = true := by
    exact hpair.elim (·.isDelimiter.1) (·.isDelimiter.2)
  obtain ⟨p, hp, hi⟩ := h.full i t ht hdel
  cases hk : Delimiters.partnerIn? pairs i with
  | none =>
    have hnone := List.findSome?_eq_none_iff.1 hk p hp
    rw [Nat.zero_add] at hi
    split at hnone
    case isTrue => cases hnone
    case isFalse => simp [hi.resolve_left ‹_›] at hnone
  | some k =>
    rcases hfound hk with hk | hk <;> rcases hpair with hpair | hpair
    · rw [hk.right_unique hpair]
    · exact absurd hk hpair.not_after
    · exact absurd hpair hk.not_after
    · rw [hk.left_unique hpair]

/-- The pairs that are found are the pairs of the tokens. -/
lemma pairs_of_pairsFrom {ts pairs} (h : Delimiters.pairsFrom 0 [] ts = .ok pairs) :
    Pairs 0 ts pairs := by
  have hb := exists_partners_iff.1 ⟨_, map_eq_ok_iff.2 ⟨pairs, h, rfl⟩⟩
  obtain ⟨found, hfound, e⟩ := hb.exists_pairs 0 [] []
  rw [List.append_nil, Nat.zero_add, h, Delimiters.pairsFrom.eq_def] at e
  cases e
  simpa using hfound

/-- Partners are told from the pairs of the tokens. -/
lemma exists_pairs_of_partners {ts partners} (h : Delimiters.partners ts = .ok partners) :
    ∃ pairs, Pairs 0 ts pairs ∧
      partners = (List.range ts.length).map (Delimiters.partnerIn? pairs) := by
  obtain ⟨pairs, hpairs, rfl⟩ := map_eq_ok_iff.1 h
  exact ⟨pairs, pairs_of_pairsFrom hpairs, rfl⟩

/-- The partners of tokens tell of each place the other place of its pair. -/
lemma getElem?_partners {ts partners} {i j : Nat} (h : Delimiters.partners ts = .ok partners) :
    partners[i]? = some (some j) ↔ PairAt ts i j ∨ PairAt ts j i := by
  obtain ⟨pairs, hpairs, rfl⟩ := exists_pairs_of_partners h
  rw [← hpairs.partnerIn?_eq_some_iff, List.getElem?_map]
  by_cases hi : i < ts.length
  · rw [List.getElem?_range hi, Option.map_some, Option.some_inj]
  · rw [List.getElem?_eq_none (by rw [List.length_range]; omega)]
    refine iff_of_false nofun fun hpartner => hi ?_
    obtain ⟨t, ht, -⟩ := (hpairs.partnerIn?_eq_some_iff.1 hpartner).elim
      (·.isDelimiter.1) (·.isDelimiter.2)
    exact (List.getElem?_eq_some_iff.1 ht).1

/-- The partners of some tokens: every delimiter has one, which opens where it closes or closes
where it opens, and no two pairs cross. -/
structure Partnered (ts : List Token) (partners : List (Option Nat)) : Prop where
  length_eq : partners.length = ts.length
  symm : ∀ i j : Nat, partners[i]? = some (some j) → partners[j]? = some (some i)
  ne : ∀ i j : Nat, partners[i]? = some (some j) → i ≠ j
  fits : ∀ i j : Nat, partners[i]? = some (some j) → i < j →
    ∃ o c, ts[i]? = some o ∧ ts[j]? = some c ∧ o.kind = .punctuator ∧ c.kind = .punctuator ∧
      Fits o.text c.text
  uncrossed : ∀ i j k l : Nat, partners[i]? = some (some j) → partners[k]? = some (some l) →
    i < k → k < j → i < l ∧ l < j
  delimiter : ∀ (i : Nat) t, ts[i]? = some t →
    ((∃ j, partners[i]? = some (some j)) ↔ t.isDelimiter = true)

/-- The partners that are found are those of the tokens. -/
lemma partnered {ts partners} (h : Delimiters.partners ts = .ok partners) :
    Partnered ts partners where
  length_eq := by
    obtain ⟨pairs, -, rfl⟩ := map_eq_ok_iff.1 h
    rw [List.length_map, List.length_range]
  symm i j hij := by
    rw [getElem?_partners h] at hij ⊢
    exact hij.symm
  ne i j hij := by
    rintro rfl
    rw [getElem?_partners h, or_self] at hij
    exact absurd hij.lt (Nat.lt_irrefl i)
  fits i j hij hlt := by
    rcases (getElem?_partners h).1 hij with hpair | hpair
    · obtain ⟨o, c, hi, hj, ho, hc⟩ := hpair.exists_fits
      obtain ⟨eo, ec, hfits⟩ := fits_of_closes? ho hc
      exact ⟨o, c, hi, hj, (Prod.mk.inj eo).1, (Prod.mk.inj ec).1, hfits⟩
    · exact absurd hpair.lt (Nat.lt_asymm hlt)
  uncrossed i j k l hij hkl hik hkj := by
    rcases (getElem?_partners h).1 hij with hpair | hpair
    · rcases (getElem?_partners h).1 hkl with hinner | hinner
      · exact ⟨Nat.lt_trans hik hinner.lt, hpair.lt_of_lt hinner hik hkj⟩
      · exact ⟨hpair.lt_of_gt hinner hik hkj, Nat.lt_trans hinner.lt hkj⟩
    · exact absurd hpair.lt (Nat.lt_asymm (Nat.lt_trans hik hkj))
  delimiter i t ht := by
    simp only [getElem?_partners h]
    constructor
    · rintro ⟨j, hpair⟩
      obtain ⟨u, hu, hdel⟩ := hpair.elim (·.isDelimiter.1) (·.isDelimiter.2)
      cases ht.symm.trans hu
      exact hdel
    · intro hdel
      obtain ⟨pairs, hpairs, -⟩ := exists_pairs_of_partners h
      exact hpairs.exists_pairAt ht hdel

/-- The delimiters of some tokens are paired just if they are nested; then each has its partner. If
they are not, the fault is at the first closer that does not close the innermost opener that waits,
and when there is none, at the last opener that is never closed. -/
theorem partners_exact (ts : List Token) :
    ((∃ partners, Delimiters.partners ts = .ok partners) ↔ Bracketed (delimiters ts)) ∧
      (∀ partners, Delimiters.partners ts = .ok partners → Partnered ts partners) ∧
      ∀ e, Delimiters.partners ts = .error e ↔ Misfit ts e :=
  ⟨exists_partners_iff.trans balanced_iff_bracketed, fun _ => partnered,
    fun _ => partners_error_iff⟩

/-- The tokens of `f(a[0], {})`. -/
def nestedCall : List Token :=
  [⟨.identifier, "f", 0, false⟩, ⟨.punctuator, "(", 1, false⟩, ⟨.identifier, "a", 2, false⟩,
    ⟨.punctuator, "[", 3, false⟩, ⟨.number, "0", 4, false⟩, ⟨.punctuator, "]", 5, false⟩,
    ⟨.punctuator, ",", 6, false⟩, ⟨.punctuator, "\x7b", 8, true⟩, ⟨.punctuator, "\x7d", 9, false⟩,
    ⟨.punctuator, ")", 10, false⟩]

/-- The partners of the delimiters of a nested call, and a closer that does not fit. -/
theorem partners_exact_call :
    Delimiters.partners nestedCall = .ok [none, some 9, none, some 5, none, some 3, none, some 8,
      some 7, some 1] ∧
      Partnered nestedCall [none, some 9, none, some 5, none, some 3, none, some 8, some 7,
        some 1] ∧
      Misfit (nestedCall.take 5 ++ nestedCall.drop 9)
        (Fault.at (.mismatched ")" "[") ⟨.punctuator, ")", 10, false⟩) :=
  have h : Delimiters.partners nestedCall = .ok [none, some 9, none, some 5, none, some 3, none,
    some 8, some 7, some 1] := by decide
  ⟨h, (partners_exact nestedCall).2.1 _ h, ((partners_exact _).2.2 _).1 (by decide)⟩

end SharpSmith.Fragment
