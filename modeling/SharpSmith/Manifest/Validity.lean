import SharpSmith.Manifest.Decode
import SharpSmith.Manifest.Error

/-!
# Valid manifests

Names in a manifest have to be identifiers, and no two declarations and no two parameters of one
list may have the same name.
-/

namespace SharpSmith.Manifest

/-- What a name names: a kind of thing, inside the things on the path, outermost first. -/
def contextOf (path : List String) (thing : String) : String :=
  if path.isEmpty then thing else thing ++ " in '" ++ Text.join "." path ++ "'"

/-- Checks that a name is an identifier. -/
def checkName (d : Document) (path : List String) (thing : String) (name : Quoted) :
    Except ManifestError Unit :=
  let span := some (d.valueSpan name.span)
  if Identifier.isKeyword name.value then
    .error (.reservedKeyword name.value (contextOf path thing) span)
  else
    match Identifier.fault? name.value with
    | some fault => .error (.invalidIdentifier name.value (contextOf path thing) fault span)
    | none => .ok ()

/-- Checks that a name is not among those seen before. -/
def checkFresh (d : Document) (seen : List Quoted) (name : Quoted) : Except ManifestError Unit :=
  match seen.find? (fun s => s.value == name.value) with
  | some first =>
    .error (.duplicate name.value (d.valueSpan first.span) (d.valueSpan name.span))
  | none => .ok ()

/-- Checks parameters: each is an identifier and differs from those before. -/
def checkParameters (d : Document) (path : List String) (seen : List Quoted) :
    List ParameterEntry → Except ManifestError Unit
  | [] => .ok ()
  | p :: ps => do
    checkName d path "parameter" p.name
    checkFresh d seen p.name
    checkParameters d path (seen ++ [p.name]) ps

/-- Checks a method of the declaration at `path`. -/
def checkMethod (d : Document) (path : List String) (m : MethodEntry) :
    Except ManifestError Unit := do
  checkName d path "method" m.name
  checkParameters d (path ++ [m.name.value]) [] m.parameters

/-- Checks the members of a declaration. -/
def checkMembers (d : Document) (definition : Definition) : Except ManifestError Unit := do
  let path := [definition.name.value]
  definition.properties.forM fun p => checkName d path "property" p.name
  definition.methods.forM (checkMethod d path)
  match definition with
  | .ofClass c => c.constructors.forM fun k => checkParameters d path [] k.parameters
  | .ofRecord r => checkParameters d path [] r.parameters
  | .ofInterface _ => return ()

/-- Checks declarations in order: each has an identifier that differs from those before, and valid
members. -/
def checkDefinitions (d : Document) (seen : List Quoted) :
    List Definition → Except ManifestError Unit
  | [] => .ok ()
  | x :: xs => do
    checkName d [] x.kind.keyword x.name
    checkFresh d seen x.name
    checkMembers d x
    checkDefinitions d (seen ++ [x.name]) xs

/-- Checks a type that is declared elsewhere. -/
def checkExternal (d : Document) (name : String) (type : ExternalType) :
    Except ManifestError Unit :=
  match Identifier.fault? name with
  | some fault => .error (.invalidIdentifier name "type" fault (d.find? name))
  | none =>
    match type.space.bind Identifier.namespaceFault? with
    | some fault => .error (.invalid (.badTypeNamespace name fault) none)
    | none => .ok ()

/-- Checks the namespace of a manifest. -/
def checkNamespace (d : Document) (space : String) : Except ManifestError Unit :=
  match Identifier.namespaceFault? space with
  | some fault => .error (.invalid (.badNamespace space fault) (d.find? space))
  | none => .ok ()

/-- Checks a manifest: its namespace, the types declared elsewhere, and its declarations. -/
def validate (m : Manifest) : Except ManifestError Unit := do
  checkNamespace m.document m.space
  m.types.entries.forM fun e => checkExternal m.document e.1 e.2
  checkDefinitions m.document [] m.definitions

/-- Reads a document as a valid manifest. -/
def load (document : Document) : Except ManifestError Manifest :=
  match decode? document with
  | none => .error .unparsable
  | some m => do
    m.validate
    return m

end SharpSmith.Manifest
