import SharpSmith.Build.File
import SharpSmith.Proofs.Registration

/-!
# Namespaces that a file reaches

A file stands in the namespace of its first declaration and imports what its declarations need.
Since no declaration needs its own namespace, one that was made for another namespace than the first
can mention types that the file does not reach: `namespace_reached_iff` says which namespaces are
reached, and `namespace_unreached` shows one that is not.
-/

namespace SharpSmith.Build

/-- What builds a declaration: its kind and name, the namespace it is made for, and the calls on
it. -/
structure Script where
  kind : DeclarationKind
  name : String
  space : String
  calls : List (Call (DeclarationStep kind))

namespace Script

/-- The declaration that a script leaves, whichever of its calls succeed. -/
def draft (s : Script) : AnyDraft :=
  ⟨s.kind, (DeclarationStep.runAll s.calls (.new s.kind s.name s.space)).state⟩

/-- The types that the calls of a script register. -/
def registered (s : Script) : List TypeRef :=
  DeclarationStep.registeredAll s.calls (.new s.kind s.name s.space)

/-- A script brings a namespace into its file: it registers a type from there, white space at the
ends of the name apart, and is itself made for another namespace. -/
def Brings (s : Script) (space : String) : Prop :=
  ∃ written, Dependencies.trimmed written = space ∧ written ≠ s.space ∧
    ∃ t ∈ s.registered, t.Imports written

/-- A script needs the namespaces that its types are imported from, but not its own. -/
lemma draft_needs (s : Script) :
    s.draft.space = s.space ∧
      ∀ space, space ∈ s.draft.dependencies.namespaces ↔
        space ≠ s.space ∧ ∃ t ∈ s.registered, t.Imports space := by
  have hneeds : s.draft.dependencies = (Dependencies.new s.space).addAll s.registered :=
    DeclarationStep.tracks.runAll s.calls _
  obtain ⟨howner, -, hmem⟩ := (Dependencies.new s.space).addAll_spec s.registered
  constructor
  · show s.draft.dependencies.owner = s.space
    rw [hneeds]
    exact howner
  · intro space
    rw [hneeds, hmem]
    simp [Dependencies.new]

/-- What a script brings is what its declaration needs, without white space at the ends. -/
lemma brings_iff {s : Script} {space} :
    s.Brings space ↔
      ∃ written ∈ s.draft.dependencies.namespaces, Dependencies.trimmed written = space := by
  constructor
  · rintro ⟨written, htrim, h⟩
    exact ⟨written, (s.draft_needs.2 written).2 h, htrim⟩
  · rintro ⟨written, hmem, htrim⟩
    exact ⟨written, htrim, (s.draft_needs.2 written).1 hmem⟩

end Script

/-- A file of scripts stands in the namespace of the first and imports what any of them brings. -/
lemma build_scripts (first : Script) (rest : List Script) (style : NamespaceStyle)
    (indent : Indent) :
    ∃ file, FileDraft.build ⟨(first :: rest).map Script.draft, style, indent⟩ = .ok file ∧
      (∀ space, file.space = some space ↔ space ≠ "" ∧ space = first.space) ∧
      ∀ space, space ∈ file.usings ↔
        space ≠ "" ∧ space ≠ first.space ∧ ∃ s ∈ first :: rest, s.Brings space := by
  refine ⟨_, rfl, fun space => ?_, fun space => ?_⟩
  · show (if first.draft.space.isEmpty then none else some first.draft.space) = some space ↔ _
    rw [first.draft_needs.1]
    split
    case isTrue hempty =>
      rw [String.isEmpty_iff] at hempty
      rw [hempty]
      exact ⟨nofun, fun h => absurd h.2 h.1⟩
    case isFalse hempty =>
      rw [String.isEmpty_iff] at hempty
      constructor
      · rintro ⟨⟩
        exact ⟨hempty, rfl⟩
      · rintro ⟨-, rfl⟩
        rfl
  · show space ∈ Dependencies.sorted (List.foldl _ (.new first.draft.space) _) ↔ _
    rw [Dependencies.mem_sorted, Dependencies.foldl_union_trimmed.2.2, first.draft_needs.1]
    simp only [Script.brings_iff, List.map_map, List.mem_map, exists_exists_and_eq_and,
      Function.comp_apply, Dependencies.new, List.not_mem_nil, false_or]

/-- The namespace of a type that some declaration of a file registers is the one that the file
stands in or one that it imports just if it is the first declaration's or some declaration brings
it; so it is, unless white space stands at its ends or it is the own namespace of the declaration
and not that of the file. -/
theorem namespace_reached_iff (first : Script) (rest : List Script) (style : NamespaceStyle)
    (indent : Indent) :
    ∃ file, FileDraft.build ⟨(first :: rest).map Script.draft, style, indent⟩ = .ok file ∧
      ∀ s ∈ first :: rest, ∀ t ∈ s.registered, ∀ space, t.Imports space →
        ((file.space = some space ∨ space ∈ file.usings) ↔
          space ≠ "" ∧ (space = first.space ∨ ∃ u ∈ first :: rest, u.Brings space)) ∧
        (space ≠ "" → Dependencies.trimmed space = space →
          (s.space = space → first.space = space) →
          file.space = some space ∨ space ∈ file.usings) := by
  obtain ⟨file, hbuild, hspace, husings⟩ := build_scripts first rest style indent
  refine ⟨file, hbuild, fun s hs t ht space himports => ?_⟩
  have hiff : (file.space = some space ∨ space ∈ file.usings) ↔
      space ≠ "" ∧ (space = first.space ∨ ∃ u ∈ first :: rest, u.Brings space) := by
    rw [hspace, husings, ← and_or_left]
    by_cases hfirst : space = first.space <;> simp [hfirst]
  refine ⟨hiff, fun hne htrim hown => hiff.2 ⟨hne, ?_⟩⟩
  by_cases hfirst : first.space = space
  · exact .inl hfirst.symm
  · exact .inr ⟨s, hs, space, htrim, fun e => hfirst (hown e.symm), t, ht, himports⟩

/-- A record with one parameter of a class from the given namespace. -/
def oneParameter (name space origin : String) : Script :=
  ⟨.recordDecl, name, space,
    [.plain (.parameter "Value" ⟨"Order", some origin, .classType, none, []⟩)]⟩

/-- A record made for another namespace than the file's brings what it takes from elsewhere. -/
theorem namespace_reached_sales :
    ∃ file, FileDraft.build ⟨[oneParameter "A" "First" "First", oneParameter "B" "Second" "Sales"]
        |>.map Script.draft, .file, .standard⟩ = .ok file ∧
      (file.space = some "Sales" ∨ "Sales" ∈ file.usings) := by
  obtain ⟨file, hbuild, h⟩ := namespace_reached_iff (oneParameter "A" "First" "First")
    [oneParameter "B" "Second" "Sales"] .file .standard
  refine ⟨file, hbuild, (h (oneParameter "B" "Second" "Sales") (.tail _ (.head _))
    ⟨"Order", some "Sales", .classType, none, []⟩ (.head _) "Sales" ?_).2 ?_ ?_ ?_⟩
  · exact ⟨⟨"Order", some "Sales", .classType, none, []⟩, .head _, rfl, rfl⟩
  · decide
  · decide
  · decide

/-- Not every namespace of a type that is registered is reached: a record made for a second
namespace may take a type from there, which the file neither stands in nor imports. -/
theorem namespace_unreached :
    ¬∀ (first : Script) (rest : List Script) (file : Code.File),
      FileDraft.build ⟨(first :: rest).map Script.draft, .file, .standard⟩ = .ok file →
      ∀ s ∈ first :: rest, ∀ t ∈ s.registered, ∀ space, t.Imports space →
        file.space = some space ∨ space ∈ file.usings := by
  intro h
  have hreached := h (oneParameter "A" "First" "First") [oneParameter "B" "Second" "Second"] _ rfl
    (oneParameter "B" "Second" "Second") (.tail _ (.head _))
    ⟨"Order", some "Second", .classType, none, []⟩ (.head _) "Second"
    ⟨⟨"Order", some "Second", .classType, none, []⟩, .head _, rfl, rfl⟩
  exact absurd hreached (by decide +kernel)

end SharpSmith.Build
