import Mathlib.Data.List.Induction
import SharpSmith.Proofs.Nesting
import SharpSmith.Proofs.Spelling

/-!
# Directives

Directives open and close regions and conditions. What is open at a place is a stack, and directives
are nested when each of them fits the top of it and nothing is left open. A file is checked with one
stack for the regions and another for the conditions. Both stacks hold a part of the one stack
(`opened?_filter`), so nested directives are accepted; others are accepted where a region and a
condition overlap, and nowhere else (`nested_iff`).
-/

namespace SharpSmith.Source

open Fragment

/-- What a directive can open. -/
inductive Opener where
  | region
  | condition
  deriving DecidableEq

/-- What a directive does: it opens or closes something, it starts another arm of a condition, or it
does none of that. -/
inductive Move where
  | opens (o : Opener)
  | arm
  | closes (o : Opener)
  | plain
  deriving DecidableEq

/-- What the directive of the given name does. -/
def move (name : String) : Move :=
  if name = "region" then .opens .region
  else if name = "endregion" then .closes .region
  else if name = "if" then .opens .condition
  else if name = "elif" ∨ name = "else" then .arm
  else if name = "endif" then .closes .condition
  else .plain

namespace Move

/-- Whether a directive looks at what is open of one kind. -/
def concerns (o : Opener) : Move → Bool
  | opens o' => o' = o
  | arm => o = .condition
  | closes o' => o' = o
  | plain => false

/-- What is open after a directive, innermost first, unless the directive does not fit. -/
def fit? : Move → List Opener → Option (List Opener)
  | opens o, s => some (o :: s)
  | arm, s => if s.head? = some .condition then some s else none
  | closes o, s => if s.head? = some o then some s.tail else none
  | plain, s => some s

end Move

/-- What is open after some directives, unless one of them does not fit. -/
def opened? (s : List Opener) : List Move → Option (List Opener)
  | [] => some s
  | m :: ms => (m.fit? s).bind (opened? · ms)

/-- Directives that fit what is open, from nothing to nothing. -/
def Nested (ms : List Move) : Prop :=
  opened? [] ms = some []

/-- The conditions between a region and its end are opened and closed there. -/
def RegionsWhole (ms : List Move) : Prop :=
  ∀ a b c, ms = a ++ .opens .region :: (b ++ .closes .region :: c) →
    Nested (b.filter (·.concerns .region)) → Nested (b.filter (·.concerns .condition))

variable {o : Opener} {m : Move} {ms ns : List Move} {s t u : List Opener}

/-- A further arm fits just if a condition is open innermost, and leaves it open. -/
lemma fit?_arm : Move.arm.fit? s = some t ↔ t = s ∧ ∃ u, s = .condition :: u := by
  cases s with
  | nil => simp [Move.fit?]
  | cons x s => simp [Move.fit?, eq_comm, and_comm]

/-- A closing directive fits just if what it closes is open innermost. -/
lemma fit?_closes : (Move.closes o).fit? s = some t ↔ s = o :: t := by
  cases s with
  | nil => simp [Move.fit?]
  | cons x s => simp [Move.fit?]

/-- Directives fit just if the first does and then the others. -/
lemma opened?_cons : opened? s (m :: ms) = some t ↔
    ∃ u, m.fit? s = some u ∧ opened? u ms = some t := by
  rw [opened?, Option.bind_eq_some_iff]

/-- Directives fit just if the first ones do and then the others. -/
lemma opened?_append : opened? s (ms ++ ns) = some t ↔
    ∃ u, opened? s ms = some u ∧ opened? u ns = some t := by
  induction ms generalizing s with
  | nil => simp [opened?]
  | cons m ms ih =>
    simp only [List.cons_append, opened?_cons, ih]
    constructor
    · rintro ⟨v, hm, u, hms, hns⟩
      exact ⟨u, ⟨v, hm, hms⟩, hns⟩
    · rintro ⟨u, ⟨v, hm, hms⟩, hns⟩
      exact ⟨v, hm, u, hms, hns⟩

/-- The directives of one kind are those at the front and those after it. -/
lemma filter_cons_concerns (m : Move) (ms : List Move) :
    (m :: ms).filter (·.concerns o) = [m].filter (·.concerns o) ++ ms.filter (·.concerns o) := by
  rw [← List.filter_append, List.singleton_append]

/-- Of what a directive does to all that is open, a part looks at one kind only. -/
lemma fit?_filter (h : m.fit? s = some t) :
    opened? (s.filter (· = o)) ([m].filter (·.concerns o)) = some (t.filter (· = o)) := by
  cases m with
  | opens o' =>
    cases h
    by_cases ho : o' = o
    · simp [Move.concerns, opened?, Move.fit?, ho]
    · simp [Move.concerns, opened?, ho]
  | arm =>
    obtain ⟨rfl, u, rfl⟩ := fit?_arm.1 h
    cases o with
    | region => simp [Move.concerns, opened?]
    | condition => simp [Move.concerns, opened?, Move.fit?]
  | closes o' =>
    rw [fit?_closes] at h
    subst h
    by_cases ho : o' = o
    · simp [Move.concerns, opened?, Move.fit?, ho]
    · simp [Move.concerns, opened?, ho]
  | plain =>
    cases h
    simp [Move.concerns, opened?]

/-- Directives that fit still fit, one kind looked at alone. -/
lemma opened?_filter (h : opened? s ms = some t) :
    opened? (s.filter (· = o)) (ms.filter (·.concerns o)) = some (t.filter (· = o)) := by
  induction ms generalizing s with
  | nil =>
    cases h
    rfl
  | cons m ms ih =>
    obtain ⟨u, hm, hms⟩ := opened?_cons.1 h
    rw [filter_cons_concerns]
    exact opened?_append.2 ⟨_, fit?_filter hm, ih hms⟩

/-- Nested directives are nested, one kind looked at alone. -/
lemma Nested.filter (h : Nested ms) (o : Opener) : Nested (ms.filter (·.concerns o)) :=
  opened?_filter h

/-- Directives inside of a region that do not close it leave it open, and do not look at what is
open outside of it. -/
lemma opened?_inside {r : List Opener} (h : opened? (u ++ .region :: s) ms = some t)
    (hregions : opened? (u.filter (· = .region)) (ms.filter (·.concerns .region)) = some r) :
    ∃ v, t = v ++ .region :: s ∧ opened? u ms = some v := by
  induction ms generalizing u with
  | nil =>
    cases h
    exact ⟨u, rfl, rfl⟩
  | cons m ms ih =>
    obtain ⟨t', hm, hms⟩ := opened?_cons.1 h
    rw [filter_cons_concerns, opened?_append] at hregions
    obtain ⟨r', hr', hregions⟩ := hregions
    obtain ⟨u', rfl, hu'⟩ : ∃ u', t' = u' ++ .region :: s ∧ m.fit? u = some u' := by
      cases m with
      | opens o =>
        cases hm
        exact ⟨o :: u, rfl, rfl⟩
      | arm =>
        obtain ⟨rfl, w, hw⟩ := fit?_arm.1 hm
        cases u with
        | nil => cases hw
        | cons x u =>
          cases hw
          exact ⟨_, rfl, fit?_arm.2 ⟨rfl, u, rfl⟩⟩
      | closes o =>
        rw [fit?_closes] at hm
        cases u with
        | nil =>
          -- the regions alone would be closed too often
          cases hm
          cases hr'
        | cons x u =>
          cases hm
          exact ⟨u, rfl, fit?_closes.2 rfl⟩
      | plain =>
        cases hm
        exact ⟨u, rfl, rfl⟩
    cases (fit?_filter (o := .region) hu').symm.trans hr'
    obtain ⟨v, hv, hopened⟩ := ih hms hregions
    exact ⟨v, hv, opened?_cons.2 ⟨u', hu', hopened⟩⟩

/-- A region that is open was opened by a directive, and what is open in it was opened after. -/
lemma exists_opens (h : opened? [] ms = some (u ++ .region :: s)) :
    ∃ a b, ms = a ++ .opens .region :: b ∧ opened? [] a = some s ∧ opened? [] b = some u := by
  induction ms using List.reverseRecOn generalizing u with
  | nil =>
    cases u <;> cases h
  | append_singleton ms m ih =>
    obtain ⟨v, hms, hlast⟩ := opened?_append.1 h
    obtain ⟨w, hm, hw⟩ := opened?_cons.1 hlast
    cases hw
    -- the directive is in the region, and fits what is open there
    have inside : ∀ {v'}, v = v' ++ .region :: s → m.fit? v' = some u →
        ∃ a b, ms ++ [m] = a ++ .opens .region :: b ∧ opened? [] a = some s ∧
          opened? [] b = some u := by
      rintro v' rfl hv'
      obtain ⟨a, b, rfl, ha, hb⟩ := ih hms
      refine ⟨a, b ++ [m], by simp, ha, opened?_append.2 ⟨v', hb, ?_⟩⟩
      rw [opened?, hv']
      rfl
    cases m with
    | opens o =>
      cases u with
      | nil =>
        cases hm
        exact ⟨ms, [], rfl, hms, rfl⟩
      | cons x u =>
        cases hm
        exact inside rfl rfl
    | arm =>
      obtain ⟨rfl, x, hx⟩ := fit?_arm.1 hm
      cases u with
      | nil => cases hx
      | cons y u =>
        cases hx
        exact inside rfl (fit?_arm.2 ⟨rfl, u, rfl⟩)
    | closes o =>
      rw [fit?_closes] at hm
      subst hm
      exact inside (List.cons_append).symm (fit?_closes.2 rfl)
    | plain =>
      cases hm
      exact inside rfl rfl

/-- A region that is open is closed by a later directive if nothing is left open. -/
lemma exists_closes
    (h : opened? (u ++ .region :: s) (ms.filter (·.concerns .region)) = some []) :
    ∃ a b, ms = a ++ .closes .region :: b ∧
      opened? u (a.filter (·.concerns .region)) = some [] := by
  induction ms generalizing u with
  | nil => cases u <;> cases h
  | cons m ms ih =>
    have later : ∀ u', opened? u ([m].filter (·.concerns .region)) = some u' →
        opened? (u' ++ .region :: s) (ms.filter (·.concerns .region)) = some [] →
        ∃ a b, m :: ms = a ++ .closes .region :: b ∧
          opened? u (a.filter (·.concerns .region)) = some [] := by
      intro u' hm hms
      obtain ⟨a, b, rfl, ha⟩ := ih hms
      refine ⟨m :: a, b, rfl, ?_⟩
      rw [filter_cons_concerns]
      exact opened?_append.2 ⟨u', hm, ha⟩
    rw [filter_cons_concerns, opened?_append] at h
    obtain ⟨v, hm, hms⟩ := h
    -- a directive that does not concern regions is passed over
    have passed : [m].filter (·.concerns .region) = [] →
        ∃ a b, m :: ms = a ++ .closes .region :: b ∧
          opened? u (a.filter (·.concerns .region)) = some [] := by
      intro hnil
      rw [hnil] at hm
      cases hm
      exact later _ (by rw [hnil]; rfl) hms
    cases m with
    | opens o =>
      cases o with
      | region =>
        cases hm
        exact later (.region :: u) rfl hms
      | condition => exact passed rfl
    | arm => exact passed rfl
    | closes o =>
      cases o with
      | region =>
        cases u with
        | nil => exact ⟨[], ms, rfl, rfl⟩
        | cons x u =>
          obtain ⟨w, hm, hw⟩ := opened?_cons.1 hm
          rw [fit?_closes] at hm
          cases hw
          cases hm
          exact later _ rfl hms
      | condition => exact passed rfl
    | plain => exact passed rfl

/-- Where directives are nested, regions hold whole conditions. -/
lemma Nested.regionsWhole (h : Nested ms) : RegionsWhole ms := by
  rintro a b c rfl hregions
  obtain ⟨s, ha, h⟩ := opened?_append.1 h
  obtain ⟨_, hopens, h⟩ := opened?_cons.1 h
  cases hopens
  obtain ⟨t, hb, h⟩ := opened?_append.1 h
  obtain ⟨_, hcloses, -⟩ := opened?_cons.1 h
  rw [fit?_closes] at hcloses
  obtain ⟨v, rfl, hv⟩ := opened?_inside (u := []) hb hregions
  have hv' := opened?_filter (o := .region) hv
  cases v with
  | nil => exact Nested.filter hv .condition
  | cons x v =>
    -- what is closed is the region itself, since no other region is open in it
    cases hcloses
    cases hregions.symm.trans hv'

/-- A region that ends is the innermost thing that is open. -/
lemma top_of_closes {a b} (ha : opened? [] a = some s)
    (hwhole : RegionsWhole (a ++ .closes .region :: b)) (hmem : .region ∈ s) :
    ∃ t, s = .region :: t := by
  obtain ⟨u, t, rfl, hu⟩ := List.eq_append_cons_of_mem hmem
  obtain ⟨a₁, a₂, rfl, -, ha₂⟩ := exists_opens ha
  -- all that is open in the region are conditions
  have hregions : u.filter (· = .region) = [] := by
    rw [List.filter_eq_nil_iff]
    rintro x hx e
    rw [of_decide_eq_true e] at hx
    exact hu hx
  have hconditions : u.filter (· = .condition) = [] := by
    have hnested := hwhole a₁ a₂ b (by simp) ((opened?_filter ha₂).trans (congrArg some hregions))
    exact Option.some.inj ((opened?_filter ha₂).symm.trans hnested)
  cases u with
  | nil => exact ⟨t, rfl⟩
  | cons x u => cases x <;> simp at hregions hconditions

/-- A condition that ends or has another arm is the innermost thing that is open. -/
lemma top_of_concerns {a b} (ha : opened? [] a = some s) (hm : m = .arm ∨ m = .closes .condition)
    (hwhole : RegionsWhole (a ++ m :: b))
    (hregions : opened? (s.filter (· = .region)) ((m :: b).filter (·.concerns .region)) = some [])
    (hmem : .condition ∈ s) : ∃ t, s = .condition :: t := by
  cases s with
  | nil => cases hmem
  | cons x s =>
    cases x with
    | condition => exact ⟨s, rfl⟩
    | region =>
      obtain ⟨a₁, a₂, rfl, -, ha₂⟩ := exists_opens (u := []) ha
      obtain ⟨c, d, e, hc⟩ := exists_closes (u := []) hregions
      have hwithin : ∃ c', c = m :: c' := by
        cases c with
        | nil => rcases hm with rfl | rfl <;> cases e
        | cons y c => exact ⟨c, by rw [(List.cons.inj e).1]⟩
      obtain ⟨c, rfl⟩ := hwithin
      -- the region holds a directive that looks for a condition outside of it
      have hnested := hwhole a₁ (a₂ ++ m :: c) d (by simp [e]) ?_
      · rw [Nested, List.filter_append, opened?_append] at hnested
        obtain ⟨t, ht, hnested⟩ := hnested
        cases (opened?_filter ha₂).symm.trans ht
        rcases hm with rfl | rfl <;> cases hnested
      · rw [Nested, List.filter_append]
        exact opened?_append.2 ⟨[], opened?_filter ha₂, hc⟩

/-- What one kind alone leaves to be fitted by a directive is open at it. -/
lemma mem_of_filter_eq_cons (h : s.filter (· = o) = o :: t) : o ∈ s :=
  (List.mem_filter.1 (h ▸ List.mem_cons_self)).1

/-- A directive fits what is open if each kind alone fits and regions hold whole conditions. -/
lemma exists_fit? {a b} (ha : opened? [] a = some s) (hwhole : RegionsWhole (a ++ m :: b))
    (hrest : ∀ o, opened? (s.filter (· = o)) ((m :: b).filter (·.concerns o)) = some []) :
    ∃ t, m.fit? s = some t := by
  cases m with
  | opens o => exact ⟨o :: s, rfl⟩
  | arm =>
    obtain ⟨_, harm, -⟩ := opened?_cons.1 (hrest .condition)
    obtain ⟨-, u, hu⟩ := fit?_arm.1 harm
    obtain ⟨t, rfl⟩ := top_of_concerns ha (.inl rfl) hwhole (hrest .region)
      (mem_of_filter_eq_cons hu)
    exact ⟨_, fit?_arm.2 ⟨rfl, t, rfl⟩⟩
  | closes o =>
    have hmem : o ∈ s := by
      have ho := hrest o
      rw [List.filter_cons_of_pos (by simp [Move.concerns])] at ho
      obtain ⟨u, hcloses, -⟩ := opened?_cons.1 ho
      exact mem_of_filter_eq_cons (fit?_closes.1 hcloses)
    obtain ⟨t, rfl⟩ : ∃ t, s = o :: t := by
      cases o with
      | region => exact top_of_closes ha hwhole hmem
      | condition => exact top_of_concerns ha (.inr rfl) hwhole (hrest .region) hmem
    exact ⟨t, fit?_closes.2 rfl⟩
  | plain => exact ⟨s, rfl⟩

/-- Directives are nested just if they are nested for each kind alone and regions hold whole
conditions. -/
lemma nested_iff : Nested ms ↔ (∀ o, Nested (ms.filter (·.concerns o))) ∧ RegionsWhole ms := by
  constructor
  · exact fun h => ⟨h.filter, h.regionsWhole⟩
  rintro ⟨h, hwhole⟩
  have hrest : ∀ a b s, ms = a ++ b → opened? [] a = some s → ∀ o,
      opened? (s.filter (· = o)) (b.filter (·.concerns o)) = some [] := by
    rintro a b s rfl ha o
    have ho := h o
    rw [Nested, List.filter_append, opened?_append] at ho
    obtain ⟨t, ht, hb⟩ := ho
    cases (opened?_filter ha).symm.trans ht
    exact hb
  have hfits : ∀ a b, ms = a ++ b → ∃ s, opened? [] a = some s := by
    intro a
    induction a using List.reverseRecOn with
    | nil => exact fun _ _ => ⟨[], rfl⟩
    | append_singleton a m ih =>
      intro b e
      rw [List.append_assoc, List.singleton_append] at e
      obtain ⟨s, ha⟩ := ih _ e
      obtain ⟨t, ht⟩ := exists_fit? ha (e ▸ hwhole) (hrest a (m :: b) s e ha)
      exact ⟨t, opened?_append.2 ⟨s, ha, opened?_cons.2 ⟨t, ht, rfl⟩⟩⟩
  obtain ⟨s, hs⟩ := hfits ms [] (List.append_nil ms).symm
  -- what is left open would be left open by its kind alone
  cases s with
  | nil => exact hs
  | cons x s =>
    have hx := hrest ms [] _ (List.append_nil ms).symm hs x
    rw [List.filter_cons_of_pos (by simp)] at hx
    cases hx

/-- The text of a directive: its signs, white space, its name, and after that nothing or white space
and more. -/
def Written (signs : Nat) (name text : String) : Prop :=
  ∃ gap rest, text.toList = List.replicate signs '#' ++ (gap ++ (name.toList ++ rest)) ∧
    (∀ x ∈ gap, Text.isBlank x = true) ∧ ∀ x ∈ rest.head?, Text.isBlank x = true

/-- A token is a directive that is known, does what `m` says and has a number of signs that `signs`
allows. -/
def Directive (signs : Nat → Prop) (t : Token) (m : Move) : Prop :=
  ∃ n name, signs n ∧ name ∈ directives ∧ Written n name t.text ∧ m = move name

/-- The directives among tokens. -/
def directivesOf (ts : List Token) : List Token :=
  ts.filter (·.kind == .directive)

/-- What the directives among tokens do. -/
def movesOf (ts : List Token) : List Move :=
  (directivesOf ts).map fun t => move (directiveName t.text)

/-- A text has balanced tokens, and the directives among them are known and do what `ms` says in
order. -/
structure Directed (signs : Nat → Prop) (text : String) (ts : List Token) (ms : List Move) :
    Prop where
  tokens : tokenize true text = .ok ts
  balanced : Balanced ts
  directives : List.Forall₂ (Directive signs) (directivesOf ts) ms

/-- The names of directives have characters, none of them white space or `#`. -/
lemma directives_chars : ∀ name ∈ directives, name.toList ≠ [] ∧
    ∀ c ∈ name.toList, Text.isBlank c = false ∧ c ≠ '#' := by
  have table : directives.all (fun name => !name.toList.isEmpty &&
      name.toList.all fun c => !Text.isBlank c && c != '#') = true := by
    decide +kernel
  intro name hname
  have h := List.all_eq_true.1 table name hname
  simpa [List.all_eq_true] using h

/-- After its signs a directive has none. -/
lemma ne_sign_of_written {gap rest : List Char} {name} (hname : name ∈ directives)
    (hgap : ∀ x ∈ gap, Text.isBlank x = true) :
    ∀ x ∈ (gap ++ (name.toList ++ rest)).head?, (x == '#') = false := by
  obtain ⟨hne, hchars⟩ := directives_chars name hname
  obtain ⟨c, w, hcw⟩ := List.exists_cons_of_ne_nil hne
  intro x hx
  cases gap with
  | nil =>
    rw [List.nil_append, hcw] at hx
    cases hx
    exact beq_eq_false_iff_ne.2 (hchars c (hcw ▸ List.mem_cons_self)).2
  | cons g gap =>
    cases hx
    refine beq_eq_false_iff_ne.2 fun e => ?_
    rw [e] at hgap
    exact absurd (hgap _ List.mem_cons_self) (by decide)

/-- The signs of a directive are all those at its start. -/
lemma signs_of_written {n name text} (hname : name ∈ directives) (h : Written n name text) :
    n = (text.toList.takeWhile (· == '#')).length := by
  obtain ⟨gap, rest, e, hgap, -⟩ := h
  rw [e, Text.takeWhile_append_stop (by simp) (ne_sign_of_written hname hgap),
    List.length_replicate]

/-- The name that is found in a directive is the one that it is written with. -/
lemma directiveName_of_written {n name text} (hn : 0 < n) (hname : name ∈ directives)
    (h : Written n name text) : directiveName text = name := by
  obtain ⟨gap, rest, e, hgap, hrest⟩ := h
  obtain ⟨hne, hchars⟩ := directives_chars name hname
  obtain ⟨c, w, hcw⟩ := List.exists_cons_of_ne_nil hne
  obtain ⟨k, rfl⟩ : ∃ k, n = k + 1 := ⟨n - 1, by omega⟩
  have hstart : Text.trimStart text.toList = text.toList := by
    rw [e, Text.trimStart]
    exact List.dropWhile_cons_of_neg (by decide)
  have hsigns : text.toList.dropWhile (· == '#') = gap ++ (name.toList ++ rest) := by
    have hstops : ∀ x ∈ (gap ++ (name.toList ++ rest)).head?, (x == '#') = false :=
      ne_sign_of_written hname hgap
    rw [e, List.dropWhile_append_of_pos (by simp)]
    cases hr : gap ++ (name.toList ++ rest) with
    | nil => rfl
    | cons x r =>
      rw [hr] at hstops
      exact List.dropWhile_cons_of_neg (by simp [hstops x rfl])
  have hname : Text.trimStart (gap ++ (name.toList ++ rest)) = name.toList ++ rest := by
    rw [Text.trimStart, List.dropWhile_append_of_pos hgap, hcw]
    exact List.dropWhile_cons_of_neg (by simpa using (hchars c (hcw ▸ List.mem_cons_self)).1)
  unfold directiveName
  rw [hstart, hsigns, hname]
  dsimp only
  rw [Text.takeWhile_append_stop (fun x hx => by simp [(hchars x hx).1])
    (fun x hx => by simp [hrest x hx]), String.ofList_toList]

/-- A directive is written with the name that is found in it. -/
lemma exists_written {text w} (h : text.toList = '#' :: w) :
    ∃ n, 0 < n ∧ Written n (directiveName text) text := by
  have hstart : Text.trimStart text.toList = text.toList := by
    rw [h, Text.trimStart]
    exact List.dropWhile_cons_of_neg (by decide)
  refine ⟨(text.toList.takeWhile (· == '#')).length, ?_,
    (text.toList.dropWhile (· == '#')).takeWhile Text.isBlank,
    (Text.trimStart (text.toList.dropWhile (· == '#'))).dropWhile (!Text.isBlank ·), ?_, ?_, ?_⟩
  · rw [h, List.takeWhile_cons_of_pos (by decide)]
    exact Nat.succ_pos _
  · have hsigns : List.replicate (text.toList.takeWhile (· == '#')).length '#' =
        text.toList.takeWhile (· == '#') :=
      (List.eq_replicate_of_mem fun x hx =>
        eq_of_beq (List.mem_takeWhile_imp (p := (· == '#')) hx)).symm
    unfold directiveName
    rw [hstart, hsigns, String.toList_ofList, List.takeWhile_append_dropWhile, Text.trimStart,
      List.takeWhile_append_dropWhile, List.takeWhile_append_dropWhile]
  · exact fun x hx => List.mem_takeWhile_imp hx
  · intro x hx
    have := List.head?_dropWhile_not (!Text.isBlank ·)
      (Text.trimStart (text.toList.dropWhile (· == '#')))
    rw [Option.mem_def.1 hx] at this
    simpa using this

/-- A token that is a directive starts with a sign. -/
lemma toList_of_directive {directives p cs ts} (h : tokensFrom directives p 0 cs = .ok ts) :
    ∀ t ∈ ts, t.kind = .directive → ∃ w, t.text.toList = '#' :: w := by
  refine tokensFrom_induction
    (motive := fun _ _ ts => ∀ t ∈ ts, t.kind = .directive → ∃ w, t.text.toList = '#' :: w)
    ?_ ?_ ?_ h
  · exact fun _ => List.forall_mem_nil _
  · exact fun _ _ _ _ _ _ ih => ih
  · intro p c cs kind n ts hl ih
    rw [List.forall_mem_cons]
    refine ⟨fun hk => ?_, ih⟩
    dsimp only at hk
    have hs := (lexeme_spelling hl).2
    rw [hk] at hs
    obtain ⟨w, hw⟩ := hs.of_directive
    exact ⟨w, by rw [String.toList_ofList, hw]⟩

/-- The moves of directives are those of the names that are found in them. -/
lemma forall₂_directive_iff {ts : List Token} {ms : List Move}
    (hsign : ∀ t ∈ ts, ∃ w, t.text.toList = '#' :: w) :
    List.Forall₂ (Directive (0 < ·)) ts ms ↔
      (∀ t ∈ ts, directiveName t.text ∈ directives) ∧
        ms = ts.map fun t => move (directiveName t.text) := by
  induction ts generalizing ms with
  | nil => simp
  | cons t ts ih =>
    rw [List.forall_mem_cons] at hsign
    rw [List.forall₂_cons_left_iff, List.forall_mem_cons]
    constructor
    · rintro ⟨m, ms, ⟨n, name, hn, hname, hwritten, rfl⟩, hms, rfl⟩
      obtain ⟨hnames, rfl⟩ := (ih hsign.2).1 hms
      have e := directiveName_of_written hn hname hwritten
      exact ⟨⟨e ▸ hname, hnames⟩, by rw [List.map_cons, e]⟩
    · rintro ⟨⟨hname, hnames⟩, rfl⟩
      obtain ⟨n, hn, hwritten⟩ := exists_written hsign.1.choose_spec
      exact ⟨_, _, ⟨n, _, hn, hname, hwritten, rfl⟩, (ih hsign.2).2 ⟨hnames, rfl⟩, rfl⟩

/-- What is open of each kind. -/
def Nesting.opened (n : Nesting) : Opener → List Opener
  | .region => n.regions.map fun _ => .region
  | .condition => n.conditions.map fun _ => .condition

/-- What is open after a directive `t` that does `m`, each kind on its own stack. -/
def Nesting.take? (n : Nesting) (t : Token) : Move → Option Nesting
  | .opens .region => some { n with regions := t :: n.regions }
  | .opens .condition => some { n with conditions := t :: n.conditions }
  | .arm => if n.conditions.isEmpty then none else some n
  | .closes .region =>
    if n.regions.isEmpty then none else some { n with regions := n.regions.tail }
  | .closes .condition =>
    if n.conditions.isEmpty then none else some { n with conditions := n.conditions.tail }
  | .plain => some n

/-- A directive that is known does what its move says. -/
lemma Nesting.step_eq {n n' : Nesting} {t : Token} {name} (h : name ∈ directives) :
    n.step t name = .ok n' ↔ n.take? t (move name) = some n' := by
  obtain ⟨rs, cs⟩ := n
  simp only [directives, List.mem_cons, List.not_mem_nil, or_false] at h
  rcases h with rfl | rfl | rfl | rfl | rfl | rfl | rfl | rfl | rfl | rfl | rfl | rfl | rfl <;>
    cases rs <;> cases cs <;> simp [Nesting.step, Nesting.take?, directives, move]

/-- What holds of regions and of conditions holds of all that can be opened. -/
lemma Opener.forall_iff {P : Opener → Prop} : (∀ o, P o) ↔ P .region ∧ P .condition :=
  ⟨fun h => ⟨h .region, h .condition⟩, fun h o => by cases o <;> simp [h]⟩

/-- A directive is taken just if it fits what is open of each kind alone. -/
lemma Nesting.take?_iff {n : Nesting} {t : Token} {s : Opener → List Opener} :
    (∃ n', n.take? t m = some n' ∧ n'.opened = s) ↔
      ∀ o, opened? (n.opened o) ([m].filter (·.concerns o)) = some (s o) := by
  obtain ⟨rs, cs⟩ := n
  simp only [funext_iff, Opener.forall_iff, Nesting.opened, List.map_const']
  cases m with
  | opens o =>
    cases o <;> simp [take?, Move.concerns, opened?, Move.fit?, List.replicate_succ]
  | arm => cases cs <;> simp [take?, Move.concerns, opened?, Move.fit?, List.replicate_succ]
  | closes o =>
    cases o with
    | region =>
      cases rs <;> simp [take?, Move.concerns, opened?, Move.fit?, List.replicate_succ]
    | condition =>
      cases cs <;> simp [take?, Move.concerns, opened?, Move.fit?, List.replicate_succ]
  | plain => simp [take?, Move.concerns, opened?]

/-- A directive that is not known is not taken. -/
lemma Nesting.known_of_step {n n' : Nesting} {t : Token} {name} (h : n.step t name = .ok n') :
    name ∈ directives := by
  by_contra hname
  rw [Nesting.step, if_pos (by simpa using hname)] at h
  cases h

/-- A run from a directive on succeeds just if its step does and then the rest. -/
lemma Nesting.run_cons_of_directive {n n' : Nesting} {t : Token} {ts} (h : t.kind = .directive) :
    n.run (t :: ts) = .ok n' ↔
      ∃ n₁, n.step t (directiveName t.text) = .ok n₁ ∧ n₁.run ts = .ok n' := by
  rw [Nesting.run, if_pos (by simpa using h)]
  cases n.step t (directiveName t.text) <;> simp

/-- Directives are taken just if they are known and fit what is open of each kind alone. -/
lemma Nesting.run_iff {n : Nesting} {ts : List Token} {s : Opener → List Opener} :
    (∃ n', n.run ts = .ok n' ∧ n'.opened = s) ↔
      (∀ t ∈ directivesOf ts, directiveName t.text ∈ directives) ∧
      ∀ o, opened? (n.opened o) ((movesOf ts).filter (·.concerns o)) = some (s o) := by
  unfold movesOf directivesOf
  induction ts generalizing n with
  | nil => simp [Nesting.run, opened?, funext_iff]
  | cons t ts ih =>
    by_cases hk : t.kind = .directive
    · rw [List.filter_cons_of_pos (by simp [hk]), List.forall_mem_cons, List.map_cons]
      simp only [Nesting.run_cons_of_directive hk]
      constructor
      · rintro ⟨n', ⟨n₁, hstep, hrun⟩, hs⟩
        have hname := Nesting.known_of_step hstep
        have hfits := Nesting.take?_iff.1 ⟨n₁, (Nesting.step_eq hname).1 hstep, rfl⟩
        obtain ⟨hnames, hrest⟩ := ih.1 ⟨n', hrun, hs⟩
        refine ⟨⟨hname, hnames⟩, fun o => ?_⟩
        rw [filter_cons_concerns]
        exact opened?_append.2 ⟨_, hfits o, hrest o⟩
      · rintro ⟨⟨hname, hnames⟩, h⟩
        simp only [filter_cons_concerns _ (List.map _ _), opened?_append] at h
        choose s₁ hfits hrest using h
        obtain ⟨n₁, htake, rfl⟩ := Nesting.take?_iff.2 hfits
        obtain ⟨n', hrun, hs⟩ := ih.2 ⟨hnames, hrest⟩
        exact ⟨n', ⟨n₁, (Nesting.step_eq hname).2 htake, hrun⟩, hs⟩
    · rw [Nesting.run_of_kind hk, List.filter_cons_of_neg (by simpa using hk)]
      exact ih

/-- A nesting is not at fault at the end just if nothing is open. -/
lemma Nesting.fault?_eq_none_iff {n : Nesting} : n.fault? = none ↔ n.opened = fun _ => [] := by
  obtain ⟨rs, cs⟩ := n
  rw [funext_iff, Opener.forall_iff]
  cases rs <;> cases cs <;> simp [Nesting.fault?, Nesting.opened]

/-- A text with directives has the moves of the names that are found in them. -/
lemma directed_iff {text ts} :
    Directed (0 < ·) text ts ms ↔
      tokenize true text = .ok ts ∧ Balanced ts ∧
        (∀ t ∈ directivesOf ts, directiveName t.text ∈ directives) ∧ ms = movesOf ts := by
  have hsign : tokenize true text = .ok ts →
      ∀ t ∈ directivesOf ts, ∃ w, t.text.toList = '#' :: w := by
    intro hts t ht
    rw [directivesOf, List.mem_filter, beq_iff_eq] at ht
    exact toList_of_directive hts t ht.1 ht.2
  constructor
  · rintro ⟨hts, hb, hdirectives⟩
    exact ⟨hts, hb, (forall₂_directive_iff (hsign hts)).1 hdirectives⟩
  · rintro ⟨hts, hb, hdirectives⟩
    exact ⟨hts, hb, (forall₂_directive_iff (hsign hts)).2 hdirectives⟩

/-- More numbers of signs may be allowed. -/
lemma Directed.mono {p q : Nat → Prop} {text ts} (h : Directed p text ts ms)
    (hpq : ∀ n, p n → q n) : Directed q text ts ms := by
  refine ⟨h.tokens, h.balanced, h.directives.imp ?_⟩
  rintro t m ⟨n, name, hn, hname, hwritten, rfl⟩
  exact ⟨n, name, hpq n hn, hname, hwritten, rfl⟩

/-- A file is accepted just if its tokens are balanced and its directives are known and nested, with
any number of signs, and with regions and conditions each for themselves. So the files that are
nested as a whole, with one sign each, are those accepted files with one sign each the regions of
which hold whole conditions. -/
theorem verify_accepts_iff (text : String) :
    (verify text = .ok () ↔
      ∃ ts ms, Directed (0 < ·) text ts ms ∧ ∀ o, Nested (ms.filter (·.concerns o))) ∧
    ((∃ ts ms, Directed (· = 1) text ts ms ∧ Nested ms) ↔
      verify text = .ok () ∧ ∃ ts ms, Directed (· = 1) text ts ms ∧ RegionsWhole ms) := by
  have haccepts : verify text = .ok () ↔
      ∃ ts ms, Directed (0 < ·) text ts ms ∧ ∀ o, Nested (ms.filter (·.concerns o)) := by
    rw [verify_eq_ok_iff_run]
    constructor
    · rintro ⟨ts, hts, hb, n, hrun, hfault⟩
      obtain ⟨hnames, hnested⟩ := Nesting.run_iff.1 ⟨n, hrun, Nesting.fault?_eq_none_iff.1 hfault⟩
      refine ⟨ts, movesOf ts, directed_iff.2 ⟨hts, hb, hnames, rfl⟩, fun o => ?_⟩
      cases o with
      | region => exact hnested .region
      | condition => exact hnested .condition
    · rintro ⟨ts, ms, hdirected, hnested⟩
      obtain ⟨hts, hb, hnames, rfl⟩ := directed_iff.1 hdirected
      obtain ⟨n, hrun, hopened⟩ := Nesting.run_iff (n := ⟨[], []⟩) (s := fun _ => []).2
        ⟨hnames, fun o => by cases o <;> exact hnested _⟩
      exact ⟨ts, hts, hb, n, hrun, Nesting.fault?_eq_none_iff.2 hopened⟩
  have hone : ∀ n : Nat, n = 1 → 0 < n := by omega
  refine ⟨haccepts, ?_⟩
  rw [haccepts]
  constructor
  · rintro ⟨ts, ms, hdirected, hnested⟩
    obtain ⟨hapart, hwhole⟩ := nested_iff.1 hnested
    exact ⟨⟨ts, ms, hdirected.mono hone, hapart⟩, ts, ms, hdirected, hwhole⟩
  · rintro ⟨⟨ts, ms, hdirected, hapart⟩, ts', ms', hdirected', hwhole⟩
    -- both name the moves of the same tokens
    obtain ⟨hts, -, -, rfl⟩ := directed_iff.1 hdirected
    obtain ⟨hts', -, -, rfl⟩ := directed_iff.1 (hdirected'.mono hone)
    cases hts.symm.trans hts'
    exact ⟨ts, _, hdirected', nested_iff.2 ⟨hapart, hwhole⟩⟩

/-- A region and a condition that overlap. -/
def overlapping : String :=
  "#region A\n#if B\n#endregion\n#endif\n"

/-- Not only nested files are accepted: a region and a condition may overlap, and a directive may
have two signs. -/
theorem accepted_not_nested :
    ¬(verify overlapping = .ok () ↔ ∃ ts ms, Directed (· = 1) overlapping ts ms ∧ Nested ms) ∧
    ¬(verify "##region A\n#endregion\n" = .ok () ↔
      ∃ ts ms, Directed (· = 1) "##region A\n#endregion\n" ts ms ∧ Nested ms) := by
  have hone : ∀ n : Nat, n = 1 → 0 < n := by omega
  constructor
  · intro h
    have hmoves :
        (tokenize true overlapping).toOption.map (opened? [] <| movesOf ·) = some none := by
      decide +kernel
    obtain ⟨ts, ms, hdirected, hnested⟩ := h.1 (by decide +kernel)
    obtain ⟨hts, -, -, rfl⟩ := directed_iff.1 (hdirected.mono hone)
    rw [hts] at hmoves
    cases hnested.symm.trans (Option.some.inj hmoves)
  · intro h
    have htexts : (tokenize true "##region A\n#endregion\n").toOption.map
        (fun ts => (directivesOf ts).map Token.text) = some ["##region A", "#endregion"] := by
      decide +kernel
    obtain ⟨ts, ms, hdirected, -⟩ := h.1 (by decide +kernel)
    rw [hdirected.tokens] at htexts
    obtain ⟨t, _, hdirectives, ht, -⟩ := List.map_eq_cons_iff.1 (Option.some.inj htexts)
    have hall := hdirected.directives
    rw [hdirectives] at hall
    cases hall with
    | cons hfirst _ =>
      obtain ⟨_, name, rfl, hname, hwritten, -⟩ := hfirst
      rw [ht] at hwritten
      exact absurd (signs_of_written hname hwritten) (by decide)

end SharpSmith.Source
