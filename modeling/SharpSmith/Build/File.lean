import SharpSmith.Build.Declaration
import SharpSmith.Code.Layout
import SharpSmith.Fragment.Source

/-!
# Building source files

Declarations are put together into one source file. It stands in the namespace of the first of
them, and imports and refers to what any of them needs.
-/

namespace SharpSmith.Build

/-- A declaration being built, of any kind. -/
structure AnyDraft where
  kind : DeclarationKind
  draft : Draft kind
  deriving Repr

namespace AnyDraft

/-- The name of a declaration. -/
def name (d : AnyDraft) : String :=
  d.draft.name

/-- The namespace of a declaration. -/
def space (d : AnyDraft) : String :=
  d.draft.space

/-- The needs of a declaration. -/
def dependencies (d : AnyDraft) : Dependencies :=
  d.draft.dependencies

/-- The declaration that was built. -/
def build (d : AnyDraft) : Code.Declaration :=
  d.draft.build

end AnyDraft

/-- Declarations to be put together, and how the file is written. -/
structure FileDraft where
  declarations : List AnyDraft
  style : NamespaceStyle
  indent : Indent
  deriving Repr

namespace FileDraft

/-- The namespace of the first declaration. -/
def space? (f : FileDraft) : Option String :=
  f.declarations.head?.map AnyDraft.space

/-- The needs of all declarations, in order. -/
def dependencies (f : FileDraft) : Dependencies :=
  (f.declarations.map AnyDraft.dependencies).foldl Dependencies.union (.new (f.space?.getD ""))

/-- The declarations that were built. When there are several, each gets a region. -/
def built (f : FileDraft) : List Code.Declaration :=
  f.declarations.map fun d =>
    if 1 < f.declarations.length then { d.build with region := some d.name } else d.build

/-- The file that the declarations make up; there has to be at least one. -/
def build (f : FileDraft) : Except BuildError Code.File :=
  match f.space? with
  | none => .error .emptyFile
  | some space =>
    .ok
      { usings := f.dependencies.sorted
        space := if space.isEmpty then none else some space
        style := f.style
        declarations := f.built }

/-- The text of the file. -/
def render (f : FileDraft) : Except BuildError String :=
  f.build.map (Code.File.render f.indent)

/-- The assemblies that the file refers to: those that the declarations need, then those of the
runtime. -/
def references (f : FileDraft) : References :=
  (References.ofList f.dependencies.artifacts).extend References.runtime.toList

/-- Checks the text of the file. -/
def verify (f : FileDraft) : Except BuildError Unit :=
  match f.render with
  | .error e => .error e
  | .ok text => (Source.verify text).mapError .malformed

/-- Hands the text of the file to a compiler. -/
def compile {α : Type} (compiler : Compiler α) (f : FileDraft) : Except BuildError α :=
  match f.render with
  | .error e => .error e
  | .ok text => (compiler.compile text f.references).mapError .compile

end FileDraft

end SharpSmith.Build
