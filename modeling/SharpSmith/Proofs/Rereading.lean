import SharpSmith.Proofs.Respacing

/-!
# Roles of tokens that are read again

The spaces of a text decide what its signs `?`, `!` and `>` mean. When the tokens are put together
and read again, the new spaces decide the same: `Reread` says what is known of one token, and
`kept_assignRoles` goes through all of them. Operands are checked in runs of tokens whose roles are
found without what stands before them, and may differ from those in the whole text; so two ways of
reading a run are followed side by side, `Under` says how they are related, and it is the roles in
the whole text that tell the new spaces.
-/

namespace SharpSmith.Fragment

/-- Whether a token ends a type, so that a `?` after it may make the type nullable. -/
def followsType (previous : Option (Token × Role)) : Bool :=
  previous.any fun (p, role) =>
    p.isKeywordIn typeKeywords || p.kind == .identifier || p.is "]" || role == .genericClose

/-- A token with a role that it can have. -/
structure Fitting (x : Token × Role) : Prop where
  plain : x.1.kind ≠ .punctuator → x.2 = .plain
  genericOpen : x.2 = .genericOpen → x.1.text = "<"
  genericClose : x.2 = .genericClose → x.1.text = ">"
  nullable : x.2 = .nullable → x.1.text = "?"
  before : x.2 = .before → x.1.text ∈ ["++", "--", "~", "!", "-", "+"]
  after : x.2 = .after → x.1.text ∈ ["++", "--", "!"]

/-- The role that a token is given is one that it can have. -/
lemma fitting_role {generic t previous next pending}
    (hg : generic = true → (t.is "<" || t.is ">") = true) :
    Fitting (t, role generic t previous next pending) := by
  by_cases hk : t.kind = .punctuator
  · cases generic with
    | true =>
      have hangle := hg rfl
      simp only [Token.is, Bool.or_eq_true, Bool.and_eq_true, beq_iff_eq] at hangle
      rcases hangle with ⟨-, ht⟩ | ⟨-, ht⟩ <;> constructor <;> simp [role, hk, ht]
    | false =>
      constructor <;> simp only [role, signRole, hk] <;> grind
  · constructor <;> simp [role, hk]

/-- A space stands between an operand or a type and a sign of a conditional or before an operand. -/
lemma space_after_operand {p : Token × Role} {t r} (hp : Fitting p)
    (h : endsOperand (some p) = true ∨ followsType (some p) = true) (hk : t.kind = .punctuator)
    (ht : t.text = "?" ∧ r = .conditional ∨ t.text = "!" ∧ r = .before) :
    spaceBetween p (t, r) = true := by
  obtain ⟨p, pr⟩ := p
  have hsign : p.kind = .punctuator →
      p.text = ")" ∨ p.text = "]" ∨ pr = .genericClose ∨ pr = .after := by
    intro hpk
    rcases h with h | h
    · simpa [endsOperand, hpk, or_assoc] using h
    · have h : p.text = "]" ∨ pr = .genericClose := by
        simpa [followsType, Token.isKeywordIn, Token.is, hpk] using h
      exact .inr (h.imp_right .inl)
  have hopen : (p.kind == .punctuator && [".", "(", "[", "?.", "::", ".."].contains p.text) =
      false := by
    by_contra hopen
    simp only [Bool.not_eq_false, Bool.and_eq_true, beq_iff_eq] at hopen
    obtain ⟨hpk, hopen⟩ := hopen
    rcases hsign hpk with e | e | e | e
    · simp [e] at hopen
    · simp [e] at hopen
    · simp [show p.text = ">" from hp.genericClose e] at hopen
    · have hafter := hp.after e
      simp only [List.mem_cons, List.not_mem_nil, or_false] at hafter
      rcases hafter with e | e | e <;> simp [e] at hopen
  have hrole : (pr == .before || pr == .genericOpen) = false := by
    by_contra hrole
    simp only [Bool.not_eq_false, Bool.or_eq_true, beq_iff_eq] at hrole
    have hpk : p.kind = .punctuator := by
      by_contra hpk
      rw [show pr = .plain from hp.plain hpk] at hrole
      simp at hrole
    have htext : p.text ∈ ["++", "--", "~", "!", "-", "+", "<"] := by
      rcases hrole with e | e
      · exact List.mem_append_left ["<"] (hp.before e)
      · simp [show p.text = "<" from hp.genericOpen e]
    rcases hsign hpk with e | e | e | e
    · simp [e] at htext
    · simp [e] at htext
    · simp [e] at hrole
    · simp [e] at hrole
  rcases ht with ⟨ht, rfl⟩ | ⟨ht, rfl⟩ <;>
    simp only [spaceBetween, hopen, hrole] <;> simp [isShift, Token.is, hk, ht]

/-- What comes next where a run of tokens is read by itself, and where it is read with the `;`
after it. -/
def Ahead (next next' : Option Token) : Prop :=
  next = next' ∨ next = none ∧ ∃ n, next' = some n ∧ n.is ";" = true

/-- A run that is read by itself, after `p`, and with what stands before it, after `q`: what is an
operand by itself is one there too, and types and shifts are the same. -/
structure Under (p q : Option (Token × Role)) : Prop where
  operand : endsOperand p = true → endsOperand q = true
  type : followsType p = followsType q
  angle : ∀ x ∈ p, x.1.is ">" = true → q = some x

/-- Whether a `?` marks a type is the same with what stands before and after. -/
lemma isNullable_under {t p q next next'} (h : Under p q) (hn : Ahead next next') :
    isNullable t p next = isNullable t q next' := by
  show (!t.spaced && followsType p && _ && _) = (!t.spaced && followsType q && _ && _)
  rw [h.type]
  rcases hn with rfl | ⟨rfl, n, rfl, hn⟩
  · rfl
  · simp only [Token.is, Bool.and_eq_true, beq_iff_eq] at hn
    simp [hn]

/-- The role of `>` does not depend on what stands around it. -/
lemma role_angle {generic t p q next next' k k'} (ht : t.is ">" = true) :
    role generic t p next k = role generic t q next' k' := by
  simp only [Token.is, Bool.and_eq_true, beq_iff_eq] at ht
  cases generic <;> simp [role, signRole, ht]

/-- A token opens type arguments just if it is marked and is a `<`. -/
lemma role_eq_genericOpen_iff {generic t p next k} :
    role generic t p next k = .genericOpen ↔
      t.kind = .punctuator ∧ generic = true ∧ t.text = "<" := by
  by_cases hk : t.kind = .punctuator
  · cases generic with
    | true => simp [role, hk]
    | false =>
      simp only [role, signRole, hk]
      grind
  · simp [role, hk]

/-- A token closes type arguments just if it is marked and is no `<`. -/
lemma role_eq_genericClose_iff {generic t p next k} :
    role generic t p next k = .genericClose ↔
      t.kind = .punctuator ∧ generic = true ∧ t.text ≠ "<" := by
  by_cases hk : t.kind = .punctuator
  · cases generic with
    | true => simp [role, hk]
    | false =>
      simp only [role, signRole, hk]
      grind
  · simp [role, hk]

/-- A sign that comes after an operand in a run that is read by itself does so everywhere. -/
lemma Under.role_after {generic t p q next next' k k'} (h : Under p q)
    (hr : role generic t p next k = .after) : role generic t q next' k' = .after := by
  have hoperand := h.operand
  simp only [role, signRole] at hr ⊢
  grind

/-- A token that is read by itself and with what stands before it has like roles. -/
lemma Under.step {generic t p q next next' k k'} (h : Under p q) :
    Under (some (t, role generic t p next k)) (some (t, role generic t q next' k')) := by
  constructor
  · intro hoperand
    simp only [endsOperand] at hoperand ⊢
    cases hk : t.kind with
    | punctuator =>
      simp only [hk, Bool.or_eq_true, beq_iff_eq, role_eq_genericClose_iff] at hoperand ⊢
      exact hoperand.imp_right h.role_after
    | identifier | number | string | character => rfl
    | keyword | directive =>
      rw [hk] at hoperand
      exact hoperand
  · simp only [followsType, Option.any_some, Bool.beq_eq_decide_eq, role_eq_genericClose_iff]
  · rintro x ⟨⟩ ht
    rw [role_angle ht]

/-- The token before, where tokens are read again. -/
inductive SamePrevious : Option (Token × Role) → Option (Token × Role) → Prop where
  | none : SamePrevious none none
  | some {x y} :
    Alike x y →
    SamePrevious (some x) (some y)

/-- Whether an operand ends before is the same where tokens are read again. -/
lemma SamePrevious.endsOperand {p p'} (h : SamePrevious p p') :
    endsOperand p' = endsOperand p := by
  cases h with
  | none => rfl
  | @some x y h =>
    simp only [Fragment.endsOperand, kind_of_bare h.bare, text_of_bare h.bare, h.role]

/-- Whether a type ends before is the same where tokens are read again. -/
lemma SamePrevious.followsType {p p'} (h : SamePrevious p p') :
    followsType p' = followsType p := by
  cases h with
  | none => rfl
  | @some x y h =>
    simp only [Fragment.followsType, Option.any_some, Token.isKeywordIn, Token.is,
      kind_of_bare h.bare, text_of_bare h.bare, h.role]

/-- What decides the role of a sign, apart from its text. -/
lemma signRole_congr {t u p p' next next' k} (ht : u.text = t.text)
    (hoperand : endsOperand p' = endsOperand p)
    (hnullable : t.text = "?" → isNullable u p' next' = isNullable t p next)
    (hafter : t.text = "!" → (!u.spaced && endsOperand p') = (!t.spaced && endsOperand p)) :
    signRole u p' next' k = signRole t p next k := by
  unfold signRole
  rw [ht, hoperand]
  by_cases hq : t.text = "?"
  · rw [hnullable hq]
    simp [hq]
  by_cases he : t.text = "!"
  · have hafter := hafter he
    rw [hoperand] at hafter
    simp [he, hafter]
  · simp [hq, he]

/-- No space stands before the mark of a nullable type or a sign after its operand. -/
lemma spaceBetween_tight {p : Token × Role} {t r} (hr : r = .nullable ∨ r = .after) :
    spaceBetween p (t, r) = false := by
  obtain ⟨p, pr⟩ := p
  simp only [spaceBetween]
  rcases hr with rfl | rfl <;> simp

/-- A space stands between the mark of a nullable type and a name. -/
lemma space_after_nullable {p c : Token} (hp : p.text = "?") (hc : c.kind = .identifier) :
    spaceBetween (p, .nullable) (c, .plain) = true := by
  simp [spaceBetween, Token.is, hp, hc]

/-- A token that is read again: `t` has the role `r` after `q`, and stands after `p` and before
`next` in a run that is read by itself; `u` is read again after `p'` and before `next'`. -/
structure Reread (r : Role) (t u : Token) (p p' q : Option (Token × Role))
    (next next' : Option Token) : Prop where
  fitting : ∀ x ∈ q, Fitting x
  under : Under p q
  previous : SamePrevious p p'
  bare : u.bare = t.bare
  spaced : u.spaced = q.any (spaceBetween · (t, r))
  next : next'.map Token.bare = next.map Token.bare
  name : r = .nullable → ∀ n ∈ next', n.kind = .identifier → n.spaced = true

namespace Reread

variable {r : Role} {t u : Token} {p p' q : Option (Token × Role)} {next next' : Option Token}

/-- A `?` is read again as the mark of a nullable type or the sign of a conditional that it was. -/
lemma isNullable_eq (h : Reread r t u p p' q next next') (hk : t.kind = .punctuator)
    (ht : t.text = "?") (hr : r = if isNullable t p next then .nullable else .conditional) :
    isNullable u p' next' = isNullable t p next := by
  cases hnull : isNullable t p next with
  | true =>
    rw [hnull] at hr
    have hspaced : u.spaced = false := by
      rw [h.spaced, hr]
      cases q with
      | none => rfl
      | some x => exact spaceBetween_tight (.inl rfl)
    have hnext := h.next
    have hname := h.name hr
    simp only [isNullable, Bool.and_eq_true] at hnull
    show (!u.spaced && followsType p' && _ && _) = true
    rw [hspaced, h.previous.followsType, show followsType p = true from hnull.1.1.2]
    cases next with
    | none =>
      rw [Option.map_none, Option.map_eq_none_iff] at hnext
      rw [hnext]
      rfl
    | some n =>
      obtain ⟨n', rfl, hn⟩ := Option.map_eq_some_iff.1 hnext
      have hspace : n'.kind = .identifier → n'.spaced = true := hname n' rfl
      have hdeclarator := hnull.1.2
      rw [Option.all_some, ← kind_of_bare hn, ← text_of_bare hn] at hdeclarator
      rw [Option.all_some, Option.all_some, hdeclarator]
      by_cases hkind : n'.kind = .identifier
      · simp [hspace hkind]
      · simp [hkind]
  | false =>
    rw [hnull] at hr
    show (!u.spaced && followsType p' && _ && _) = false
    rw [h.previous.followsType]
    cases htype : followsType p with
    | false => simp
    | true =>
      -- a conditional after what may be a type is set off
      rw [h.under.type] at htype
      cases hq : q with
      | none =>
        rw [hq] at htype
        cases htype
      | some x =>
        rw [hq] at htype
        have hspace := space_after_operand (h.fitting x hq) (.inr htype) hk (.inl ⟨ht, hr⟩)
        rw [h.spaced, hq, Option.any_some, hspace]
        rfl

/-- A `!` is read again as coming before or after its operand as it did. -/
lemma after_eq (h : Reread r t u p p' q next next') (hk : t.kind = .punctuator) (ht : t.text = "!")
    (hr : r = if !t.spaced && endsOperand q then .after else .before) :
    (!u.spaced && endsOperand p') = (!t.spaced && endsOperand p) := by
  rw [h.previous.endsOperand]
  cases hp : endsOperand p with
  | false => simp
  | true =>
    have hq := h.under.operand hp
    rw [hq] at hr
    have hspaced : u.spaced = t.spaced := by
      rw [h.spaced]
      cases hx : q with
      | none =>
        rw [hx] at hq
        cases hq
      | some x =>
        rw [hx] at hq
        rw [Option.any_some]
        cases hs : t.spaced with
        | false => exact spaceBetween_tight (.inr (by simpa [hs] using hr))
        | true =>
          have hbefore : r = .before := by simpa [hs] using hr
          exact space_after_operand (h.fitting x hx) (.inl hq) hk (.inr ⟨ht, hbefore⟩)
    rw [hspaced]

/-- A token is read again with the role that it had. -/
lemma role_eq {generic nextF k k'} (h : Reread (role generic t q nextF k') t u p p' q next next')
    (hahead : Ahead next nextF) :
    role generic u p' next' k = role generic t p next k := by
  unfold role
  rw [kind_of_bare h.bare, text_of_bare h.bare]
  by_cases hk : t.kind = .punctuator
  · cases generic with
    | true => rfl
    | false =>
      have hsign : signRole u p' next' k = signRole t p next k := by
        refine signRole_congr (text_of_bare h.bare) h.previous.endsOperand
          (fun ht => ?_) fun ht => ?_
        · refine h.isNullable_eq hk ht ?_
          rw [isNullable_under h.under hahead]
          simp [role, signRole, hk, ht]
        · refine h.after_eq hk ht ?_
          simp [role, signRole, hk, ht]
      rw [hsign]
  · simp [hk]

end Reread

/-- Tokens with roles that are read again after others: each is alike, and the signs of a shift
still stand together. -/
inductive Kept : (previous previous' : Option (Token × Role)) → List (Token × Role) →
    List (Token × Role) → Prop where
  | nil {p p'} : Kept p p' [] []
  | cons {p p' x y xs ys} :
    Alike x y →
    (∀ a ∈ p, ∀ b ∈ p', a.2 = .between → x.2 = .between → isShift b.1 y.1 = isShift a.1 x.1) →
    Kept (some x) (some y) xs ys →
    Kept p p' (x :: xs) (y :: ys)

/-- A sign of a shift after another one is set off just if the two stood apart. -/
lemma spaceBetween_shift {p : Token × Role} {t : Token} (hp : p.1.is ">" = true)
    (hr : p.2 = .between) (ht : t.text = ">" ∨ t.text = ">=") :
    spaceBetween p (t, .between) = t.spaced := by
  obtain ⟨p, pr⟩ := p
  simp only at hp hr
  subst hr
  simp only [Token.is, Bool.and_eq_true, beq_iff_eq] at hp
  rcases ht with ht | ht <;> cases hs : t.spaced <;>
    simp [spaceBetween, isShift, Token.is, hp, ht, hs]

/-- The signs that end a shift are infix operators wherever they are no brackets. -/
lemma role_between {generic t p q next next' k k'} (hr : role generic t p next k = .between)
    (ht : t.text = ">" ∨ t.text = ">=") : role generic t q next' k' = .between := by
  by_cases hk : t.kind = .punctuator
  · cases generic with
    | true => rcases ht with ht | ht <;> simp [role, hk, ht] at hr
    | false => rcases ht with ht | ht <;> simp [role, signRole, hk, ht, infixOperators]
  · simp [role, hk] at hr

/-- The signs of a shift are read again together. -/
lemma Reread.isShift_eq {generic t u p p' q next next' nextF k k'} {a b : Token × Role}
    (h : Reread (role generic t q nextF k') t u p p' q next next') (ha : p = some a)
    (hb : p' = some b) (har : a.2 = .between) (hr : role generic t p next k = .between) :
    isShift b.1 u = isShift a.1 t := by
  have hab : b.1.bare = a.1.bare := by
    have hprevious := h.previous
    rw [ha, hb] at hprevious
    cases hprevious with
    | some hab => exact hab.bare
  unfold isShift
  rw [is_of_bare hab, text_of_bare h.bare]
  by_cases hangle : a.1.is ">" = true ∧ (t.text = ">" ∨ t.text = ">=")
  · obtain ⟨hangle, ht⟩ := hangle
    have hspaced := h.spaced
    rw [h.under.angle a ha hangle, role_between hr ht, Option.any_some,
      spaceBetween_shift hangle har ht] at hspaced
    rw [hspaced]
  · grind

/-- The token after another one is read again, set off if it is a name after a nullable type. -/
lemma next_respaced {t r k} {xs ys : List (Token × Bool)} {us vs : List Token}
    (hfit : Fitting (t, r)) (hlen : us.length = xs.length)
    (h : Respaced (some (t, r)) (assignRoles (some (t, r)) k (xs ++ ys)) (us ++ vs)) :
    ((us.zip (xs.map Prod.snd)).head?.map Prod.fst).map Token.bare =
        (xs.head?.map Prod.fst).map Token.bare ∧
      (r = .nullable → ∀ n ∈ (us.zip (xs.map Prod.snd)).head?.map Prod.fst,
        n.kind = .identifier → n.spaced = true) := by
  cases xs with
  | nil =>
    cases List.length_eq_zero_iff.1 hlen
    exact ⟨rfl, nofun⟩
  | cons x xs =>
    obtain ⟨c, generic⟩ := x
    cases us with
    | nil => cases hlen
    | cons u us =>
      rw [List.cons_append, List.cons_append, assignRoles] at h
      cases h with
      | cons hbare hspaced _ =>
        refine ⟨congrArg some hbare, ?_⟩
        rintro rfl n ⟨⟩ hn
        have hc : c.kind = .identifier := (kind_of_bare hbare).symm.trans hn
        have hrole : role generic c (some (t, .nullable)) ((xs ++ ys).head?.map (·.1)) k =
            .plain := by
          simp [role, hc]
        rw [hspaced, hrole]
        exact space_after_nullable (hfit.nullable rfl) hc

/-- A run of tokens that is read again keeps its roles, where `xs` is read by itself after `p` and
followed by `ys` after `q`. -/
lemma kept_assignRoles {xs ys : List (Token × Bool)} {us vs : List Token} {p p' q k k'}
    (hangle : ∀ x ∈ xs, x.2 = true → (x.1.is "<" || x.1.is ">") = true)
    (hfit : ∀ x ∈ q, Fitting x) (hunder : Under p q) (hp : SamePrevious p p')
    (hys : ∀ y ∈ ys.head?, y.1.is ";" = true) (hlen : us.length = xs.length)
    (h : Respaced q (assignRoles q k' (xs ++ ys)) (us ++ vs)) :
    Kept p p' (assignRoles p k xs) (assignRoles p' k (us.zip (xs.map Prod.snd))) := by
  induction xs generalizing us p p' q k k' with
  | nil =>
    cases List.length_eq_zero_iff.1 hlen
    exact .nil
  | cons x xs ih =>
    obtain ⟨t, generic⟩ := x
    cases us with
    | nil => cases hlen
    | cons u us =>
      rw [List.cons_append, List.cons_append, assignRoles] at h
      cases h with
      | cons hbare hspaced hrest =>
        have hlen : us.length = xs.length := by simpa using hlen
        have hahead : Ahead (xs.head?.map (·.1)) ((xs ++ ys).head?.map (·.1)) := by
          cases xs with
          | cons => exact .inl rfl
          | nil =>
            cases ys with
            | nil => exact .inl rfl
            | cons y ys => exact .inr ⟨rfl, y.1, rfl, hys y rfl⟩
        have hfirst : Fitting (t, role generic t q ((xs ++ ys).head?.map (·.1)) k') :=
          fitting_role (hangle _ (.head _))
        obtain ⟨hnext, hname⟩ := next_respaced hfirst hlen hrest
        have hread : Reread (role generic t q ((xs ++ ys).head?.map (·.1)) k') t u p p' q
            (xs.head?.map (·.1)) ((us.zip (xs.map Prod.snd)).head?.map (·.1)) :=
          ⟨hfit, hunder, hp, hbare, hspaced, hnext, hname⟩
        simp only [List.map_cons, List.zip_cons_cons, assignRoles]
        rw [hread.role_eq hahead]
        refine .cons ⟨hbare, rfl⟩ (fun a ha b hb => hread.isShift_eq ha hb) ?_
        refine ih (fun x hx => hangle x (.tail _ hx)) ?_ hunder.step (.some ⟨hbare, rfl⟩) hlen hrest
        rintro _ ⟨⟩
        exact hfirst

/-- Tokens that are read again are alike, one by one. -/
lemma Kept.alike {p p' xs ys} (h : Kept p p' xs ys) : List.Forall₂ Alike xs ys := by
  induction h with
  | nil => exact .nil
  | cons hxy _ _ ih => exact .cons hxy ih

/-- No infix operator stands just after another one when tokens are read again. -/
lemma Kept.doubledOperator? {x y xs ys} (h : Kept (some x) (some y) xs ys) (hxy : Alike x y)
    (hnone : doubledOperator? (x :: xs) = none) : doubledOperator? (y :: ys) = none := by
  induction xs generalizing x y ys with
  | nil =>
    cases h
    rfl
  | cons c xs ih =>
    cases h with
    | @cons _ _ _ d _ ys hcd hshift hrest =>
      obtain ⟨hbare, hrole⟩ := hxy
      obtain ⟨t, r⟩ := x
      obtain ⟨u, _⟩ := y
      obtain ⟨c, cr⟩ := c
      obtain ⟨d, _⟩ := d
      cases hrole
      cases hcd.role
      simp only [Fragment.doubledOperator?] at hnone ⊢
      split at hnone
      case isTrue => cases hnone
      case isFalse hfirst =>
        rw [if_neg, ih hrest hcd hnone]
        intro hsecond
        apply hfirst
        simp only [Bool.and_eq_true, beq_iff_eq] at hsecond ⊢
        obtain ⟨⟨⟨hc, hr⟩, hapart⟩, hpattern⟩ := hsecond
        rw [hshift _ rfl _ rfl hr hc] at hapart
        rw [is_of_bare hbare, text_of_bare hcd.bare] at hpattern
        exact ⟨⟨⟨hc, hr⟩, hapart⟩, hpattern⟩

/-- The last operator has its right operand when tokens are read again. -/
lemma Kept.danglingOperator? {p p' xs ys} (h : Kept p p' xs ys)
    (hnone : danglingOperator? xs = none) : danglingOperator? ys = none := by
  have hlast := List.rel_reverse h.alike
  unfold Fragment.danglingOperator? at *
  rw [List.getLast?_eq_head?_reverse] at *
  generalize xs.reverse = xs at hlast hnone
  generalize ys.reverse = ys at hlast
  cases hlast with
  | nil => rfl
  | @cons x y _ _ hxy =>
    simp only [List.head?_cons, Option.bind_some] at hnone ⊢
    rw [kind_of_bare hxy.bare, text_of_bare hxy.bare, hxy.role]
    split at hnone
    case isTrue => cases hnone
    case isFalse hno => rw [if_neg hno]

/-- A run without a fault has none when it is read again. -/
lemma operandFault?_respaced {ts us : List Token} (hbare : us.map Token.bare = ts.map Token.bare)
    (h : Kept none none (roles ts) (roles us)) (hnone : operandFault? ts = none) :
    operandFault? us = none := by
  unfold operandFault? at hnone ⊢
  split at hnone
  case h_1 => cases hnone
  case h_2 hhead =>
    split at hnone
    case h_1 => cases hnone
    case h_2 hdoubled =>
      have hdangling : danglingOperator? (roles us) = none :=
        h.danglingOperator? (by simpa using hnone)
      have hdoubled' : doubledOperator? (roles us) = none := by
        generalize roles ts = xs at h hdoubled
        generalize roles us = ys at h
        cases h with
        | nil => rfl
        | cons hxy _ hrest => exact hrest.doubledOperator? hxy hdoubled
      have hhead' : us.head?.filter (fun t => t.kind == .punctuator &&
          infixOperators.contains t.text && t.text != "::") = none := by
        cases us with
        | nil => rfl
        | cons u us =>
          obtain ⟨t, ts', rfl, hb, -⟩ := List.map_eq_cons_iff.1 hbare.symm
          rw [List.head?_cons, Option.filter_some] at hhead ⊢
          rw [← kind_of_bare hb, ← text_of_bare hb]
          split at hhead
          case isTrue => cases hhead
          case isFalse hno => rw [if_neg hno]
      rw [hhead', hdoubled', hdangling]
      rfl

/-- Which tokens are brackets of type arguments does not depend on where they stand. -/
lemma inTypeArguments_bare {t u : Token} (h : u.bare = t.bare) :
    inTypeArguments u = inTypeArguments t := by
  unfold inTypeArguments
  rw [kind_of_bare h, text_of_bare h]

/-- Where type arguments end does not depend on where the tokens stand. -/
lemma typeArgumentsEnd?_bare {ts us : List Token} {depth}
    (h : us.map Token.bare = ts.map Token.bare) :
    typeArgumentsEnd? depth us = typeArgumentsEnd? depth ts := by
  induction ts generalizing us depth with
  | nil => rw [List.map_eq_nil_iff.1 h]
  | cons t ts ih =>
    obtain ⟨u, us, rfl, hu, hus⟩ := List.map_eq_cons_iff.1 h
    simp only [typeArgumentsEnd?, inTypeArguments_bare hu, is_of_bare hu, ih hus]

/-- Which tokens are brackets of type arguments does not depend on where they stand. -/
lemma genericBrackets_bare {ts us : List Token} {p p' : Option Token} {inside}
    (hp : p'.any (·.kind == .identifier) = p.any (·.kind == .identifier))
    (h : us.map Token.bare = ts.map Token.bare) :
    genericBrackets p' inside us = genericBrackets p inside ts := by
  induction ts generalizing us p p' inside with
  | nil => rw [List.map_eq_nil_iff.1 h, genericBrackets, genericBrackets]
  | cons t ts ih =>
    obtain ⟨u, us, rfl, hu, hus⟩ := List.map_eq_cons_iff.1 h
    have hrest : ∀ n, genericBrackets (some u) n us = genericBrackets (some t) n ts :=
      fun n => ih (by rw [Option.any_some, Option.any_some, kind_of_bare hu]) hus
    cases inside with
    | succ inside => simp only [genericBrackets, is_of_bare hu, hrest]
    | zero => simp only [genericBrackets, is_of_bare hu, hp, typeArgumentsEnd?_bare hus, hrest]

/-- The brackets of type arguments are told apart before and after a token that cannot stand among
type arguments. -/
lemma genericBrackets_cut {x : Token} {xs ys p inside} (hx : inTypeArguments x = false)
    (hinside : inside ≤ xs.length) :
    genericBrackets p inside (xs ++ x :: ys) =
      genericBrackets p inside xs ++ false :: genericBrackets none 0 ys := by
  induction xs generalizing p inside with
  | nil =>
    cases Nat.le_zero.1 hinside
    have hangle : x.is "<" = false := by
      by_contra hangle
      simp only [Token.is, Bool.not_eq_false, Bool.and_eq_true, beq_iff_eq] at hangle
      simp [inTypeArguments, hangle] at hx
    have hname : (x.kind == .identifier) = false := by
      by_contra hname
      simp only [Bool.not_eq_false, beq_iff_eq] at hname
      simp [inTypeArguments, hname] at hx
    have hrest : genericBrackets (some x) 0 ys = genericBrackets none 0 ys :=
      genericBrackets_bare (by rw [Option.any_some, hname]; rfl) rfl
    simp [genericBrackets, hangle, hrest]
  | cons t xs ih =>
    rw [List.cons_append]
    cases inside with
    | succ inside =>
      rw [genericBrackets, genericBrackets, ih (Nat.le_of_succ_le_succ hinside)]
      rfl
    | zero =>
      simp only [genericBrackets, typeArgumentsEnd?_cut hx]
      split
      case h_1 n hn =>
        have hle : n ≤ xs.length := by
          split at hn
          case isTrue => exact (typeArgumentsEnd?_eq_some_iff.1 hn).le_length
          case isFalse => cases hn
        rw [ih hle]
        rfl
      case h_2 =>
        rw [ih (Nat.zero_le _)]
        rfl

/-- Tokens with whether each is a bracket of type arguments. -/
def flagged (ts : List Token) : List (Token × Bool) :=
  ts.zip (genericBrackets none 0 ts)

/-- Marking tokens leaves them as they are. -/
lemma map_fst_flagged {ts} : (flagged ts).map Prod.fst = ts :=
  List.map_fst_zip (Nat.le_of_eq length_genericBrackets.symm)

/-- The marks of tokens are those of the brackets of type arguments. -/
lemma map_snd_flagged {ts} : (flagged ts).map Prod.snd = genericBrackets none 0 ts :=
  List.map_snd_zip (Nat.le_of_eq length_genericBrackets)

/-- A token that may not stand among type arguments cuts the marks in two. -/
lemma flagged_cut {x : Token} {xs ys} (hx : inTypeArguments x = false) :
    flagged (xs ++ x :: ys) = flagged xs ++ (x, false) :: flagged ys := by
  rw [flagged, genericBrackets_cut hx (Nat.zero_le _), List.zip_append length_genericBrackets.symm,
    List.zip_cons_cons, flagged, flagged]

/-- The same tokens are brackets of type arguments when tokens are read again. -/
lemma zip_flagged {ts us : List Token} (h : us.map Token.bare = ts.map Token.bare) :
    us.zip ((flagged ts).map Prod.snd) = flagged us := by
  rw [map_snd_flagged, flagged, genericBrackets_bare rfl h]

/-- From a place on roles are found with the token there and the conditionals that wait. -/
lemma assignRoles_cut (p : Option (Token × Role)) (k : Nat) (xs ys : List (Token × Bool))
    (x : Token × Bool) :
    ∃ rs r k',
      assignRoles p k (xs ++ x :: ys) = rs ++ (x.1, r) :: assignRoles (some (x.1, r)) k' ys ∧
      rs.map Prod.fst = xs.map Prod.fst ∧ ∃ q next n, r = role x.2 x.1 q next n := by
  induction xs generalizing p k with
  | nil => exact ⟨[], _, _, rfl, rfl, _, _, _, rfl⟩
  | cons y xs ih =>
    obtain ⟨t, generic⟩ := y
    rw [List.cons_append, assignRoles]
    obtain ⟨rs, r, k', hrs, hfst, hr⟩ := ih (some (t, _)) _
    rw [hrs]
    exact ⟨_ :: rs, r, k', rfl, by rw [List.map_cons, List.map_cons, hfst], hr⟩

/-- A token that cannot stand among type arguments ends no type. -/
lemma followsType_of_inTypeArguments {x : Token × Role} (hfit : Fitting x)
    (h : inTypeArguments x.1 = false) : followsType (some x) = false := by
  obtain ⟨t, r⟩ := x
  cases hk : t.kind with
  | punctuator =>
    simp only [inTypeArguments, hk, List.contains_eq_mem, decide_eq_false_iff_not] at h
    have hrole : r ≠ .genericClose := by
      intro hr
      rw [show t.text = ">" from hfit.genericClose hr] at h
      exact h (by decide)
    have htext : t.text ≠ "]" := by
      intro ht
      rw [ht] at h
      exact h (by decide)
    simp [followsType, Token.isKeywordIn, Token.is, hk, hrole, htext]
  | identifier => simp [inTypeArguments, hk] at h
  | keyword =>
    have hr : r = .plain := hfit.plain (by simp [hk])
    have htype : typeKeywords.contains t.text = false := by simpa [inTypeArguments, hk] using h
    simp only [followsType, Option.any_some, Token.isKeywordIn, Token.is, hk, hr, htype]
    rfl
  | number | string | character | directive =>
    have hr : r = .plain := hfit.plain (by simp [hk])
    simp [followsType, Token.isKeywordIn, Token.is, hk, hr]

/-- A place in tokens that are read again: `ts` are the tokens from there on, of which `us` is read,
where what stands before ends no type. -/
def Resumed (ts us : List Token) : Prop :=
  ∃ previous pending, (∀ x ∈ previous, Fitting x) ∧ followsType previous = false ∧
    Respaced previous (assignRoles previous pending (flagged ts)) us

/-- Reading again starts at the start. -/
lemma Resumed.start {ts us} (h : Respaced none (roles ts) us) : Resumed ts us :=
  ⟨none, 0, nofun, rfl, h⟩

/-- What is read again can be cut after a token that cannot stand among type arguments. -/
lemma Resumed.exists_cut {xs ys us} {x : Token} (hx : inTypeArguments x = false)
    (h : Resumed (xs ++ x :: ys) us) :
    ∃ vs u ws, us = vs ++ u :: ws ∧ vs.map Token.bare = xs.map Token.bare ∧ u.bare = x.bare ∧
      Resumed ys ws := by
  obtain ⟨p, k, -, -, hread⟩ := h
  obtain ⟨rs, r, k', hrs, hfst, q, next, n, hr⟩ :=
    assignRoles_cut p k (flagged xs) (flagged ys) (x, false)
  rw [flagged_cut hx, hrs] at hread
  obtain ⟨vs, u, ws, rfl, hvs, hu, hrest⟩ := hread.exists_cut
  refine ⟨vs, u, ws, rfl, ?_, hu, some (x, r), k', ?_, ?_, hrest⟩
  · have hbare := congrArg (List.map Token.bare) (hfst.trans map_fst_flagged)
    rw [List.map_map] at hbare
    exact hvs.trans hbare
  · rintro _ ⟨⟩
    rw [hr]
    exact fitting_role nofun
  · refine followsType_of_inTypeArguments ?_ hx
    rw [hr]
    exact fitting_role nofun

/-- A run that is read again keeps its roles: what stands before it ends no type, and nothing or a
`;` follows. -/
lemma kept_roles {ts us vs p k} {ys : List (Token × Bool)} (hfit : ∀ x ∈ p, Fitting x)
    (htype : followsType p = false) (hys : ∀ y ∈ ys.head?, y.1.is ";" = true)
    (hbare : us.map Token.bare = ts.map Token.bare)
    (h : Respaced p (assignRoles p k (flagged ts ++ ys)) (us ++ vs)) :
    Kept none none (roles ts) (roles us) := by
  have hlen : us.length = (flagged ts).length := by
    have hflagged := congrArg List.length (map_fst_flagged : (flagged ts).map Prod.fst = ts)
    have hus := congrArg List.length hbare
    rw [List.length_map] at hflagged
    rw [List.length_map, List.length_map] at hus
    exact hus.trans hflagged.symm
  have hkept : Kept none none _ (assignRoles none 0 (us.zip ((flagged ts).map Prod.snd))) :=
    kept_assignRoles (k := 0) (fun x hx => is_angle_of_genericBrackets hx) hfit
      ⟨nofun, htype.symm, nofun⟩ .none hys hlen h
  rw [zip_flagged hbare] at hkept
  exact hkept

/-- A run that is read again up to its `;` keeps its roles. -/
lemma Resumed.exists_kept {ts rest us} {t : Token} (ht : t.is ";" = true)
    (h : Resumed (ts ++ t :: rest) us) :
    ∃ vs u ws, us = vs ++ u :: ws ∧ vs.map Token.bare = ts.map Token.bare ∧ u.bare = t.bare ∧
      Kept none none (roles ts) (roles vs) ∧ Resumed rest ws := by
  have hstop : inTypeArguments t = false := inTypeArguments_of_is ht (by decide)
  obtain ⟨vs, u, ws, rfl, hvs, hu, hrest⟩ := h.exists_cut hstop
  obtain ⟨p, k, hfit, htype, hread⟩ := h
  rw [flagged_cut hstop] at hread
  refine ⟨vs, u, ws, rfl, hvs, hu, kept_roles hfit htype ?_ hvs hread, hrest⟩
  rintro _ ⟨⟩
  exact ht

/-- Tokens that are read again with other spaces are the same tokens. -/
lemma Respaced.bare_of_roles {ts us} (h : Respaced none (roles ts) us) :
    us.map Token.bare = ts.map Token.bare := by
  have hroles := congrArg (List.map Token.bare) (map_fst_roles : (roles ts).map Prod.fst = ts)
  rw [List.map_map] at hroles
  exact h.map_bare.trans hroles

/-- Tokens that are read again keep their roles, and are put together to the same text. -/
lemma roles_respaced {ts us} (h : Respaced none (roles ts) us) :
    Kept none none (roles ts) (roles us) ∧ joinTokens us = joinTokens ts := by
  have hread : Respaced none (assignRoles none 0 (flagged ts ++ [])) (us ++ []) := by
    rw [List.append_nil, List.append_nil]
    exact h
  have hkept := kept_roles (by simp) rfl (by simp) h.bare_of_roles hread
  refine ⟨hkept, joinRoles_respaced hkept.alike ?_⟩
  rw [map_fst_roles]
  exact h

end SharpSmith.Fragment
