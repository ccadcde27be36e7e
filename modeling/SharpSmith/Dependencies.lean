import SharpSmith.TypeRef

/-!
# Dependencies

What a declaration needs from outside: the namespaces to import and the assemblies to refer to, in
the order in which they were first needed. Built-in types need nothing, and nothing from the
declaration's own namespace is imported.
-/

namespace SharpSmith

/-- The needs of a declaration in the namespace `owner`. -/
structure Dependencies where
  owner : String
  namespaces : List String
  artifacts : List String
  deriving Repr, DecidableEq, Inhabited

namespace Dependencies

/-- No needs yet. -/
def new (owner : String) : Dependencies :=
  ⟨owner, [], []⟩

/-- Whether there are no needs. -/
def isEmpty (r : Dependencies) : Bool :=
  r.namespaces.isEmpty && r.artifacts.isEmpty

/-- Records one type without its arguments. -/
def addNode (r : Dependencies) (t : TypeRef) : Dependencies :=
  match t.origin with
  | some space =>
    if t.isBuiltIn || space == r.owner then r
    else
      { r with
        namespaces := Text.insertNew space r.namespaces
        artifacts :=
          match t.artifact with
          | some artifact => Text.insertNew artifact r.artifacts
          | none => r.artifacts }
  | none => r

/-- Records a type and its arguments. -/
def add (r : Dependencies) (t : TypeRef) : Dependencies :=
  t.nodes.foldl addNode r

/-- Records a namespace by name, without white space at its ends; the empty name and the own
namespace are passed over. -/
def addNamespace (r : Dependencies) (text : String) : Dependencies :=
  let space := String.ofList (Text.trim text.toList)
  if space.isEmpty || space == r.owner then r
  else { r with namespaces := Text.insertNew space r.namespaces }

/-- Records an assembly by name, without white space at its ends; the empty name is passed over. -/
def addArtifact (r : Dependencies) (text : String) : Dependencies :=
  let artifact := String.ofList (Text.trim text.toList)
  if artifact.isEmpty then r
  else { r with artifacts := Text.insertNew artifact r.artifacts }

/-- The needs of both, those of `r` first; the own namespace of `r` is still left out. -/
def union (r other : Dependencies) : Dependencies :=
  let r := other.namespaces.foldl addNamespace r
  { r with artifacts := other.artifacts.foldl (fun xs x => Text.insertNew x xs) r.artifacts }

/-- Whether a namespace is `System` or one below it. -/
def isSystem (space : String) : Bool :=
  space == "System" || ['S', 'y', 's', 't', 'e', 'm', '.'].isPrefixOf space.toList

/-- Whether one using stands before or with another: `System` and what is below it come first, and
then code points decide. -/
def usingLe (a b : String) : Bool :=
  if isSystem a == isSystem b then decide (a ≤ b) else isSystem a

/-- The namespaces in the order of usings. -/
def sorted (r : Dependencies) : List String :=
  r.namespaces.mergeSort usingLe

end Dependencies

end SharpSmith
