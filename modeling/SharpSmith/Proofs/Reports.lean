import SharpSmith.Proofs.Assemblies
import SharpSmith.Proofs.Lowering
import SharpSmith.Report

/-!
# Checking foretells generating

A manifest is checked by building its source file without writing it. Nothing fails while a file is
written, so checking fails just as generating does, with the same error. What both tell about the
file is worked out beside it, and is what the file holds.
-/

namespace SharpSmith.Manifest

open Build

/-- Checking is generating without the text. -/
lemma check_eq_map_generate {m : Manifest} {path : String} :
    m.check path = m.generate.map fun r => ⟨path, r.summary⟩ := by
  unfold check generate
  cases m.project with
  | error e => rfl
  | ok p =>
    rw [ok_bind, ok_bind, FileDraft.render]
    cases p.file.build <;> rfl

/-- A source file that is generated has been built. -/
lemma generate_eq_ok_iff {m : Manifest} {r} :
    m.generate = .ok r ↔ ∃ p f, m.project = .ok p ∧ p.file.build = .ok f ∧
      r = ⟨m.summarize p, f.render p.file.indent⟩ := by
  simp only [generate, bind_eq_ok_iff, mapError_eq_ok_iff, FileDraft.render, map_eq_ok_iff]
  constructor
  · rintro ⟨p, hp, _, ⟨f, hf, rfl⟩, h⟩
    cases h
    exact ⟨p, f, hp, hf, rfl⟩
  · rintro ⟨p, f, hp, hf, rfl⟩
    exact ⟨p, hp, _, ⟨f, hf, rfl⟩, rfl⟩

/-- A region changes neither the names nor the kinds of declarations. -/
lemma headings_built {f : FileDraft} :
    f.built.map (fun d => (d.name, d.kind)) = f.declarations.map fun d => (d.name, d.kind) := by
  rw [FileDraft.built, List.map_map]
  refine List.map_congr_left fun d _ => ?_
  dsimp only [Function.comp_apply]
  split <;> rfl

/-- The summary of a manifest is read off the file that is built and what it refers to. -/
lemma summarize_eq {m : Manifest} {p f} (hp : m.project = .ok p) (hf : p.file.build = .ok f) :
    m.summarize p =
      { space := f.space.getD ""
        declarations := f.declarations.map fun d => (d.name, d.kind)
        usings := f.usings
        references := p.file.references.toList } := by
  obtain ⟨a, rest, hcons, rfl⟩ := file_of_build hf
  have hspace : a.space = m.space := by
    have hmem : a ∈ p.declarations := by
      rw [hcons]
      exact .head _
    obtain ⟨d, -, hd⟩ := exists_of_mem_of_forall₂ (drafts_of_project hp) hmem
    exact space_of_draft hd
  have hgetD : (if a.space.isEmpty then none else some a.space).getD "" = m.space := by
    rw [← hspace]
    split
    case isTrue he => exact (String.isEmpty_iff.1 he).symm
    case isFalse => rfl
  have husings : p.file.dependencies =
      (p.declarations.map AnyDraft.dependencies).foldl Dependencies.union (.new a.space) := by
    rw [FileDraft.dependencies, FileDraft.space?, Project.file, hcons]
    rfl
  rw [summarize, hgetD, headings_built, husings]

/-- Checking a manifest foretells what comes of generating its source file: checking fails with
just the errors that generating fails with, and succeeds just if generating does, with the same
summary. The summary names the namespace, the declarations and the usings of the very file whose
text is generated, and the assemblies that the file refers to. -/
theorem check_foretells (path : String) (m : Manifest) :
    (∀ e, m.check path = .error e ↔ m.generate = .error e) ∧
    ((∃ v, m.check path = .ok v) ↔ ∃ r, m.generate = .ok r) ∧
    ∀ v r, m.check path = .ok v → m.generate = .ok r →
      v = ⟨path, r.summary⟩ ∧
      ∃ p f, m.project = .ok p ∧ p.file.build = .ok f ∧ r.source = f.render p.file.indent ∧
        r.summary =
          { space := f.space.getD ""
            declarations := f.declarations.map fun d => (d.name, d.kind)
            usings := f.usings
            references := p.file.references.toList } := by
  rw [check_eq_map_generate]
  cases hr : m.generate with
  | error e =>
    refine ⟨fun e' => ?_, iff_of_false (fun h => nomatch h) (fun h => nomatch h),
      fun v r _ h => nomatch h⟩
    exact ⟨fun h => by cases h; rfl, fun h => by cases h; rfl⟩
  | ok r =>
    refine ⟨fun e => iff_of_false (fun h => nomatch h) (fun h => nomatch h),
      iff_of_true ⟨_, rfl⟩ ⟨r, rfl⟩, ?_⟩
    rintro _ _ ⟨⟩ ⟨⟩
    obtain ⟨p, f, hp, hf, rfl⟩ := generate_eq_ok_iff.1 hr
    exact ⟨rfl, p, f, hp, hf, rfl, summarize_eq hp hf⟩

/-- What is told about boxes comes from their file, and nothing can be told of no declarations. -/
theorem check_foretells_boxes :
    (∃ v r p f, boxes.check "csgen.toml" = .ok v ∧ boxes.generate = .ok r ∧
      v.summary = r.summary ∧ boxes.project = .ok p ∧ p.file.build = .ok f ∧
      r.summary.usings = f.usings ∧ r.summary.declarations = [("Box", .recordDecl)]) ∧
    ({ boxes with records := [] } : Manifest).check "csgen.toml" =
      .error (.build .emptyFile none) := by
  constructor
  · have hok : (boxes.generate.toOption.map fun r => r.summary.declarations) =
        some [("Box", .recordDecl)] := by
      decide +kernel
    cases hr : boxes.generate with
    | error e =>
      rw [hr] at hok
      cases hok
    | ok r =>
      rw [hr] at hok
      obtain ⟨-, hsucceeds, htells⟩ := check_foretells "csgen.toml" boxes
      obtain ⟨v, hv⟩ := hsucceeds.2 ⟨r, hr⟩
      obtain ⟨hsummary, p, f, hp, hf, -, hfile⟩ := htells v r hv hr
      exact ⟨v, r, p, f, hv, rfl, by rw [hsummary], hp, hf, by rw [hfile], Option.some_inj.1 hok⟩
  · exact ((check_foretells "csgen.toml" _).1 _).2 (by decide +kernel)

end SharpSmith.Manifest
