import SharpSmith.Proofs.Spacing

/-!
# Tokens that are read again

When tokens are put together and read again, all that changes is which of them stand after a space:
those that `spaceBetween` sets off do. `Respaced` says this of tokens with roles and of what is read
again. Whether a space stands between two tokens is then decided as before, so tokens that have kept
their roles are put together to the same text.
-/

namespace SharpSmith.Fragment

/-- Tokens read again after others with roles were put together: the same, with the spaces that
were put between. -/
inductive Respaced : (previous : Option (Token × Role)) → List (Token × Role) → List Token →
    Prop where
  | nil {previous} : Respaced previous [] []
  | cons {previous x xs u us} :
    u.bare = x.1.bare →
    u.spaced = previous.any (spaceBetween · x) →
    Respaced (some x) xs us →
    Respaced previous (x :: xs) (u :: us)

/-- Tokens that are read again are those that were put together. -/
lemma Respaced.map_bare {previous xs us} (h : Respaced previous xs us) :
    us.map Token.bare = xs.map fun x => x.1.bare := by
  induction h with
  | nil => rfl
  | cons hb _ _ ih => rw [List.map_cons, List.map_cons, hb, ih]

/-- What is read again can be cut at a token. -/
lemma Respaced.exists_cut {previous xs x ys us} (h : Respaced previous (xs ++ x :: ys) us) :
    ∃ vs u ws, us = vs ++ u :: ws ∧ vs.map Token.bare = xs.map (fun x => x.1.bare) ∧
      u.bare = x.1.bare ∧ Respaced (some x) ys ws := by
  induction xs generalizing previous us with
  | nil =>
    cases h with
    | @cons _ _ _ u us hb _ hrest => exact ⟨[], u, us, rfl, rfl, hb, hrest⟩
  | cons y xs ih =>
    cases h with
    | @cons _ _ _ v us hb _ hrest =>
      obtain ⟨vs, u, ws, rfl, hvs, hu, hws⟩ := ih hrest
      refine ⟨v :: vs, u, ws, rfl, ?_, hu, hws⟩
      rw [List.map_cons, List.map_cons, hb, hvs]

/-- A token ends before those after it unless two of them fuse. -/
lemma ends_joinAfter {p : Token × Role} {xs} (hp : Placed p) (hxs : ∀ x ∈ xs, Placed x)
    (hf : fuses (p :: xs) = false) :
    Ends p.1.kind p.1.text.toList (joinAfter p xs).toList := by
  cases xs with
  | nil => exact Ends.nil
  | cons c xs =>
    cases hglue : spaceBetween p c with
    | true =>
      have hblank : Text.isBlank ' ' = true := by decide
      have htext : (joinAfter p (c :: xs)).toList =
          ' ' :: (c.1.text.toList ++ (joinAfter c xs).toList) := by
        simp [joinAfter, hglue]
      rw [htext]
      exact .blank hblank hp.notDirective
    | false =>
      have htext : (joinAfter p (c :: xs)).toList =
          c.1.text.toList ++ (joinAfter c xs).toList := by
        simp [joinAfter, hglue]
      rw [htext]
      by_contra he
      have hrest : ∀ x ∈ xs, Placed x := fun x hx => hxs x (.tail _ hx)
      have hfuses := fuses_of_not_ends hp (hxs c (.head _)) hrest hglue he
      rw [hf] at hfuses
      cases hfuses

/-- A token that the rest does not go on with is read where it stands. -/
lemma tokensFrom_of_ends {directives kind t r us} (position : Position) (h : Spelling kind t)
    (hk : kind ≠ .directive) (he : Ends kind t r)
    (hr : tokensFrom directives ⟨false, false, position.offset + Text.byteLength t⟩ 0 r = .ok us) :
    tokensFrom directives position 0 (t ++ r) =
      .ok (⟨kind, String.ofList t, position.offset, position.spaced⟩ :: us) := by
  obtain ⟨c, w, rfl⟩ := h.exists_cons
  rw [List.cons_append, tokensFrom, h.lexeme rfl hk he]
  simp only [tokensFrom_skip (n := w.length), List.drop_left, List.take_left]
  rw [hr]

/-- A space is passed over, and the token after it stands after a space. -/
lemma tokensFrom_space {directives n r} {spaced : Bool} :
    tokensFrom directives ⟨false, spaced, n⟩ 0 (' ' :: r) =
      tokensFrom directives ⟨false, true, n + 1⟩ 0 r := by
  have hl : lexeme directives false ' ' r = .ok ⟨.blank, 0⟩ := by
    have hblank : Text.isBlank ' ' = true := by decide
    simp [lexeme, hblank]
  rw [tokensFrom, hl]
  rfl

/-- Tokens that are put together after another one and do not fuse are read again. -/
lemma tokensFrom_joinAfter {p : Token × Role} {xs n} (hp : Placed p) (hxs : ∀ x ∈ xs, Placed x)
    (hf : fuses (p :: xs) = false) :
    ∃ us, tokensFrom false ⟨false, false, n⟩ 0 (joinAfter p xs).toList = .ok us ∧
      Respaced (some p) xs us := by
  induction xs generalizing p n with
  | nil => exact ⟨[], by simp [joinAfter, tokensFrom], .nil⟩
  | cons c xs ih =>
    have hc : Placed c := hxs c (.head _)
    have hrest : ∀ x ∈ xs, Placed x := fun x hx => hxs x (.tail _ hx)
    have hfc : fuses (c :: xs) = false := by
      simp only [fuses, Bool.or_eq_false_iff] at hf
      exact hf.2
    -- whatever the position, the token is read there and the others are read again after it
    have step : ∀ n, ∃ us, tokensFrom false ⟨false, spaceBetween p c, n⟩ 0
        (c.1.text.toList ++ (joinAfter c xs).toList) = .ok us ∧
        Respaced (some p) (c :: xs) us := by
      intro n
      obtain ⟨us, hus, hres⟩ := ih hc hrest hfc (n := n + Text.byteLength c.1.text.toList)
      have hread := tokensFrom_of_ends ⟨false, spaceBetween p c, n⟩ hc.spelling hc.notDirective
        (ends_joinAfter hc hrest hfc) hus
      refine ⟨_, hread, .cons ?_ rfl hres⟩
      rw [Token.bare, String.ofList_toList, Token.bare]
    cases hglue : spaceBetween p c with
    | true =>
      rw [hglue] at step
      obtain ⟨us, hus, hres⟩ := step (n + 1)
      refine ⟨us, ?_, hres⟩
      simpa [joinAfter, hglue, tokensFrom_space] using hus
    | false =>
      rw [hglue] at step
      obtain ⟨us, hus, hres⟩ := step n
      refine ⟨us, ?_, hres⟩
      simpa [joinAfter, hglue] using hus

/-- Tokens that are put together and do not fuse are read again. -/
lemma tokenize_joinRoles {xs : List (Token × Role)} (h : ∀ x ∈ xs, Placed x)
    (hf : fuses xs = false) :
    ∃ us, tokenize false (joinRoles xs) = .ok us ∧ Respaced none xs us := by
  cases xs with
  | nil => exact ⟨[], rfl, .nil⟩
  | cons p xs =>
    have hp : Placed p := h p (.head _)
    have hrest : ∀ x ∈ xs, Placed x := fun x hx => h x (.tail _ hx)
    obtain ⟨us, hus, hres⟩ := tokensFrom_joinAfter hp hrest hf
      (n := 0 + Text.byteLength p.1.text.toList)
    have hread := tokensFrom_of_ends .start hp.spelling hp.notDirective
      (ends_joinAfter hp hrest hf) hus
    rw [← String.toList_append] at hread
    refine ⟨_, hread, .cons ?_ rfl hres⟩
    rw [Token.bare, String.ofList_toList, Token.bare]

/-- Tokens with roles that are the same, apart from where they stand. -/
structure Alike (x y : Token × Role) : Prop where
  bare : y.1.bare = x.1.bare
  role : y.2 = x.2

/-- A space that was there is kept, or whether it was there does not matter. -/
lemma spaceBetween_spaced (p : Token × Role) (c : Token) (r : Role) :
    (∀ b, spaceBetween p ({ c with spaced := b }, r) = b) ∨
      ∀ b b', spaceBetween p ({ c with spaced := b }, r) =
        spaceBetween p ({ c with spaced := b' }, r) := by
  obtain ⟨p, pr⟩ := p
  by_cases h₁ : (c.kind == .punctuator &&
      [".", ",", ";", ")", "]", "?.", "::", ".."].contains c.text) = true
  · exact .inr fun b b' => by simp only [spaceBetween, h₁, if_true]
  by_cases h₂ : (p.kind == .punctuator && [".", "(", "[", "?.", "::", ".."].contains p.text) = true
  · exact .inr fun b b' => by simp only [spaceBetween, h₁, h₂, if_true]
  by_cases h₃ : (pr == .before || pr == .genericOpen) = true
  · exact .inr fun b b' => by simp only [spaceBetween, h₁, h₂, h₃, if_true]
  by_cases h₄ : [Role.genericOpen, .genericClose, .nullable, .after, .colon].contains r = true
  · exact .inr fun b b' => by simp only [spaceBetween, h₁, h₂, h₃, h₄, if_true]
  simp only [spaceBetween, h₁, h₂, h₃, h₄, Bool.false_eq_true, if_false]
  by_cases h₅ : pr = .between ∧ p.is ">" = true ∧ (c.text = ">" ∨ c.text = ">=")
  · -- the signs of a shift, or two that are set apart
    obtain ⟨rfl, hp, hc⟩ := h₅
    simp only [Token.is, Bool.and_eq_true, beq_iff_eq] at hp
    refine .inl fun b => ?_
    rcases hc with hc | hc <;> cases b <;> simp [isShift, Token.is, hp, hc]
  have hshift : ∀ b, (pr == .between && isShift p { c with spaced := b }) = false := by
    intro b
    by_contra h
    simp only [isShift, Bool.not_eq_false, Bool.and_eq_true, Bool.or_eq_true, beq_iff_eq] at h
    exact h₅ ⟨h.1, h.2.1.1, h.2.2⟩
  have hsame : ∀ b text, Token.is { c with spaced := b } text = c.is text := fun _ _ => rfl
  simp only [hshift, hsame, Bool.false_eq_true, if_false]
  by_cases h₆ : c.is "(" = true
  · exact .inr fun b b' => by simp only [h₆, if_true]
  by_cases h₇ : c.is "[" = true
  · exact .inr fun b b' => by simp only [h₆, h₇, if_true]
  by_cases h₈ : (p.is ")" && c.kind != .punctuator) = true
  · exact .inl fun b => by simp [h₆, h₇, h₈]
  · exact .inr fun b b' => by simp only [h₆, h₇, h₈, Bool.false_eq_true, if_false]

/-- Between tokens that are read again a space stands where one was put. -/
lemma spaceBetween_respaced {p p' c c' : Token × Role} (hp : Alike p p') (hc : Alike c c')
    (hs : c'.1.spaced = spaceBetween p c) : spaceBetween p' c' = spaceBetween p c := by
  obtain ⟨⟨pk, pt, _, _⟩, pr⟩ := p
  obtain ⟨⟨pk', pt', _, _⟩, pr'⟩ := p'
  obtain ⟨⟨ck, ct, co, cs⟩, cr⟩ := c
  obtain ⟨⟨ck', ct', _, cs'⟩, cr'⟩ := c'
  obtain ⟨hpb, rfl⟩ := hp
  obtain ⟨hcb, rfl⟩ := hc
  cases hpb
  cases hcb
  rcases spaceBetween_spaced (⟨pk, pt, 0, false⟩, pr') ⟨ck, ct, co, cs⟩ cr' with h | h
  · exact (h cs').trans hs
  · exact h cs' cs

/-- The kind of a token does not depend on where it stands. -/
lemma kind_of_bare {t u : Token} (h : u.bare = t.bare) : u.kind = t.kind :=
  (Prod.mk.inj h).1

/-- The text of a token does not depend on where it stands. -/
lemma text_of_bare {t u : Token} (h : u.bare = t.bare) : u.text = t.text :=
  (Prod.mk.inj h).2

/-- Whether a token is a punctuator does not depend on where it stands. -/
lemma is_of_bare {t u : Token} (h : u.bare = t.bare) (text : String) : u.is text = t.is text := by
  rw [Token.is, kind_of_bare h, text_of_bare h, Token.is]

/-- Tokens that are read again are put together to the same text. -/
lemma joinAfter_respaced {x y : Token × Role} {xs ys} (hxy : Alike x y)
    (h : List.Forall₂ Alike xs ys) (hr : Respaced (some x) xs (ys.map Prod.fst)) :
    joinAfter y ys = joinAfter x xs := by
  induction h generalizing x y with
  | nil => rfl
  | @cons c d xs ys hcd _ ih =>
    rw [List.map_cons] at hr
    cases hr with
    | cons _ hspaced hrest =>
      rw [joinAfter, joinAfter, spaceBetween_respaced hxy hcd hspaced, text_of_bare hcd.bare,
        ih hcd hrest]

/-- Tokens that are read again with alike roles are put together as before. -/
lemma joinRoles_respaced {xs ys : List (Token × Role)} (h : List.Forall₂ Alike xs ys)
    (hr : Respaced none xs (ys.map Prod.fst)) : joinRoles ys = joinRoles xs := by
  cases h with
  | nil => rfl
  | cons hxy hrest =>
    rw [List.map_cons] at hr
    cases hr with
    | cons _ _ hr =>
      rw [joinRoles, joinRoles, text_of_bare hxy.bare, joinAfter_respaced hxy hrest hr]

end SharpSmith.Fragment
