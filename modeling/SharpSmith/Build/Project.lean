import SharpSmith.Build.File

/-!
# Building one file call by call

A project holds the declarations of one source file. Declarations are added in the namespace that
is set at that time, and one whose calls fail is not added.
-/

namespace SharpSmith.Build

/-- The declarations so far, the namespace for the next ones, and how the file is written. -/
structure Project where
  space : String
  declarations : List AnyDraft
  style : NamespaceStyle
  indent : Indent
  deriving Repr

namespace Project

/-- A project without declarations. -/
def new (space : String) : Project :=
  ⟨space, [], .file, .standard⟩

/-- Sets the namespace of the declarations that are added from now on. -/
def setSpace (space : String) (p : Project) : Project :=
  { p with space := space }

/-- Sets how the namespace is written. -/
def setStyle (style : NamespaceStyle) (p : Project) : Project :=
  { p with style := style }

/-- Sets how depth is written. -/
def setIndent (indent : Indent) (p : Project) : Project :=
  { p with indent := indent }

/-- Adds a declaration as it is, in its own namespace. -/
def add (d : AnyDraft) (p : Project) : Project :=
  { p with declarations := p.declarations ++ [d] }

/-- Adds the declaration that calls build in the namespace `space`, if they succeed. -/
def addBuiltIn {kind : DeclarationKind} (space name : String)
    (calls : List (Call (DeclarationStep kind))) (p : Project) : Run Project :=
  (DeclarationStep.runAll calls (.new kind name space)).commit (fun d => p.add ⟨kind, d⟩) p

/-- Adds the declaration that calls build in the present namespace, if they succeed. -/
def addBuilt {kind : DeclarationKind} (name : String) (calls : List (Call (DeclarationStep kind)))
    (p : Project) : Run Project :=
  p.addBuiltIn p.space name calls

/-- The file of a project. -/
def file (p : Project) : FileDraft :=
  ⟨p.declarations, p.style, p.indent⟩

end Project

end SharpSmith.Build
