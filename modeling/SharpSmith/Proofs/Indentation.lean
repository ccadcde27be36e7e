import SharpSmith.Proofs.Verification

/-!
# Depth is only layout

Of the text of a file the same tokens are read whatever one level of depth is written as: each line
starts and ends outside of every token, so that what stands before it is passed over. Whether the
text has tokens at all depends on its fragments, as it does for a text that is verified.
-/

namespace SharpSmith

open Fragment

/-- A source file has the given tokens, directives among them. -/
def Source.HasTokens (source : String) (bs : List (TokenKind × String)) : Prop :=
  ∃ ts, tokenize true source = .ok ts ∧ ts.map Token.bare = bs

/-- The texts of a sound file have the same tokens at every indent, if its fragments have any. -/
lemma Code.File.Sound.hasTokens {f : Code.File} (h : f.Sound) :
    ∃ v, (v.isSome = true ↔ ∀ text ∈ f.fragments, Lexes text) ∧
      ∀ indent bs, Source.HasTokens (f.render indent) bs ↔ v = some bs := by
  obtain ⟨v, hv, hread⟩ := (Code.tidy_file h).read
  refine ⟨v, hv.isSome_iff, fun indent bs => ?_⟩
  rw [Source.HasTokens, tokenize_bare_iff, Code.File.render, hread indent]

namespace Manifest

variable {m : Manifest} {p : Build.Project}

/-- A project with declarations makes up a file, which is written at any indent. -/
lemma render_setIndent (hp : m.project = .ok p) (hne : p.declarations ≠ []) :
    ∃ f, m.file = .ok f ∧ ∀ indent, (p.setIndent indent).file.render = .ok (f.render indent) := by
  cases hd : p.declarations with
  | nil => exact absurd hd hne
  | cons a rest =>
    have hspace : p.file.space? = some a.space := by
      rw [Build.FileDraft.space?, Build.Project.file, hd]
      rfl
    obtain ⟨f, hbuild⟩ : ∃ f, p.file.build = .ok f := by
      rw [Build.FileDraft.build, hspace]
      exact ⟨_, rfl⟩
    refine ⟨f, ?_, fun indent => ?_⟩
    · simp only [file, bind_eq_ok_iff, mapError_eq_ok_iff]
      exact ⟨p, hp, hbuild⟩
    · -- what is built does not depend on the indent
      have hsame : (p.setIndent indent).file.build = .ok f := hbuild
      rw [Build.FileDraft.render, hsame]
      rfl

/-- A valid manifest with a declaration has the same tokens at any two indents, or none at either:
it has some just if each of its statements and expressions has, and one that has none was put
together from tokens that fuse. -/
theorem indent_only_layout (hv : m.validate = .ok ()) (hp : m.project = .ok p)
    (hne : p.declarations ≠ []) :
    ∃ f, m.file = .ok f ∧
      (∀ i j, ∃ s t, (p.setIndent i).file.render = .ok s ∧ (p.setIndent j).file.render = .ok t ∧
        (∀ bs, Source.HasTokens s bs ↔ Source.HasTokens t bs) ∧
        ((∃ bs, Source.HasTokens s bs ∧ Source.HasTokens t bs) ↔
          ∀ text ∈ f.fragments, Lexes text)) ∧
      ∀ text ∈ f.fragments, ¬Lexes text →
        ∃ ts, Balanced ts ∧ text = joinTokens ts ∧ fuses (roles ts) = true := by
  obtain ⟨f, hf, hrender⟩ := render_setIndent hp hne
  have hsound := sound_file (checked_of_validate hv) hf
  obtain ⟨v, hlexes, htokens⟩ := hsound.hasTokens
  refine ⟨f, hf, fun i j => ?_, fun text ht => (hsound.isFragment text ht).fuses⟩
  refine ⟨f.render i, f.render j, hrender i, hrender j, fun bs => ?_, ?_⟩
  · rw [htokens, htokens]
  · simp only [htokens, and_self]
    rw [← hlexes, Option.isSome_iff_exists]

/-- A string of two lines has its own line break, and no indent gets into it. -/
theorem indent_only_layout_verbatim :
    ∃ p s t bs, (oneLine "x = @\"a\n b\"").project = .ok p ∧
      (p.setIndent (.spaces 0)).file.render = .ok s ∧ (p.setIndent .tab).file.render = .ok t ∧
      Source.HasTokens s bs ∧ Source.HasTokens t bs := by
  have hv : (oneLine "x = @\"a\n b\"").validate = .ok () := by decide +kernel
  have hfragments : (oneLine "x = @\"a\n b\"").file.toOption.map Code.File.fragments =
      some ["x = @\"a\n b\";"] := by decide +kernel
  have hdeclared : (oneLine "x = @\"a\n b\"").project.toOption.any
      (fun p => !p.declarations.isEmpty) = true := by decide +kernel
  cases hp : (oneLine "x = @\"a\n b\"").project with
  | error e =>
    rw [hp] at hdeclared
    cases hdeclared
  | ok p =>
    rw [hp] at hdeclared
    have hne : p.declarations ≠ [] := by simpa [Except.toOption] using hdeclared
    obtain ⟨f, hf, hsame, -⟩ := indent_only_layout hv hp hne
    obtain ⟨s, t, hs, ht, -, htokens⟩ := hsame (.spaces 0) .tab
    rw [hf] at hfragments
    obtain ⟨bs, hbs⟩ := htokens.2 (by
      rw [Option.some.inj hfragments, List.forall_mem_singleton]
      decide +kernel)
    exact ⟨p, s, t, bs, rfl, hs, ht, hbs⟩

/-- Not every valid manifest has tokens at any two indents: no token starts with the `²` of
`0x1 . 1e+²` once the point has made one number of those beside it. -/
theorem indent_without_tokens :
    ¬∀ (m : Manifest) (p : Build.Project) (i j : Indent) (s t : String), m.validate = .ok () →
      m.project = .ok p → p.declarations ≠ [] → (p.setIndent i).file.render = .ok s →
      (p.setIndent j).file.render = .ok t →
      ∃ bs, Source.HasTokens s bs ∧ Source.HasTokens t bs := by
  intro h
  have hv : (oneLine "x = 0x1 . 1e+²").validate = .ok () := by decide +kernel
  have hbad : ((oneLine "x = 0x1 . 1e+²").project.toOption.any fun p =>
      !p.declarations.isEmpty && (p.setIndent .tab).file.render.toOption.any fun s =>
        !(tokenize true s).isOk) = true := by decide +kernel
  cases hp : (oneLine "x = 0x1 . 1e+²").project with
  | error e =>
    rw [hp] at hbad
    cases hbad
  | ok p =>
    rw [hp, Except.toOption, Option.any_some, Bool.and_eq_true] at hbad
    obtain ⟨hdeclared, hbad⟩ := hbad
    have hne : p.declarations ≠ [] := by simpa using hdeclared
    cases hs : (p.setIndent .tab).file.render with
    | error e =>
      rw [hs] at hbad
      cases hbad
    | ok s =>
      obtain ⟨bs, ⟨ts, hts, -⟩, -⟩ := h _ p .tab .tab s s hv hp hne hs hs
      rw [hs] at hbad
      simp [Except.toOption, hts, Except.isOk, Except.toBool] at hbad

end Manifest

end SharpSmith
