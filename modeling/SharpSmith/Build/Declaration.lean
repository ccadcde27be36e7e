import SharpSmith.Build.Constructor
import SharpSmith.Build.Property

/-!
# Building declarations

A class, interface or record is built by calls that add to it. A call either does all it should or
leaves the declaration as it was.
-/

namespace SharpSmith.Build

/-- A declaration of the given kind being built. `signatures` are those of its constructors. -/
structure Draft (kind : DeclarationKind) where
  name : String
  dependencies : Dependencies
  doc : Option String
  attributes : List Code.Attribute
  modifiers : Modifiers
  parameters : List ParameterDraft
  base : Option TypeRef
  interfaces : List TypeRef
  members : List Code.Member
  signatures : List (List String)
  deriving Repr, Inhabited

namespace Draft

variable {kind : DeclarationKind}

/-- A public declaration in a namespace, without anything yet. -/
def new (kind : DeclarationKind) (name space : String) : Draft kind where
  name := name
  dependencies := .new space
  doc := none
  attributes := []
  modifiers := .ofVisibility (some .publicAccess)
  parameters := []
  base := none
  interfaces := []
  members := []
  signatures := []

/-- The namespace of a declaration. -/
def space (d : Draft kind) : String :=
  d.dependencies.owner

/-- The texts of the types after the colon: the base class, then the interfaces. -/
def bases (d : Draft kind) : List String :=
  (d.base.toList ++ d.interfaces).map TypeRef.display

/-- The declaration that was built. -/
def build (d : Draft kind) : Code.Declaration where
  kind := kind
  name := d.name
  doc := d.doc
  attributes := d.attributes
  modifiers := d.modifiers.toList
  parameters :=
    if kind = .recordDecl then some (d.parameters.map ParameterDraft.build) else none
  bases := d.bases
  members := d.members
  region := none

/-- Whether members start without a visibility and methods without a body. -/
def inInterface (_ : Draft kind) : Bool :=
  kind = .interfaceDecl

/-- Sets the base class, which is no interface and can be set once. -/
def setBase (d : Draft kind) (type : TypeRef) : Run (Draft kind) :=
  if type.isInterface then .fail d (.invalidBase d.name type.display)
  else
    match d.base with
    | some existing => .fail d (.baseAlreadySet d.name existing.display type.display)
    | none => .done { d with dependencies := d.dependencies.add type, base := some type }

/-- Adds an interface. -/
def addInterface (d : Draft kind) (type : TypeRef) : Run (Draft kind) :=
  if type.isInterface then
    .done { d with
      dependencies := d.dependencies.add type
      interfaces := d.interfaces ++ [type] }
  else .fail d (.notAnInterface d.name type.display)

/-- Adds attributes. -/
def addAttributes (d : Draft kind) (calls : List (Call AttributeStep)) : Run (Draft kind) :=
  (AttributeStep.collect calls d.dependencies).commit
    (fun a => { d with
      dependencies := a.dependencies
      attributes := d.attributes ++ a.attributes })
    d

/-- Adds properties. -/
def addProperties (d : Draft kind) (calls : List (Call PropertyStep)) : Run (Draft kind) :=
  let visibility := if d.inInterface then none else some Modifier.publicAccess
  (Call.runAll PropertyStep.run calls ⟨d.dependencies, visibility, []⟩).commit
    (fun p => { d with
      dependencies := p.dependencies
      members := d.members ++ p.build.map Code.Member.property })
    d

/-- Adds a method. -/
def addMethod (d : Draft kind) (name : String) (calls : List (Call MethodStep)) :
    Run (Draft kind) :=
  (Call.runAll MethodStep.run calls (.new d.dependencies name d.inInterface)).commit
    (fun m => { d with
      dependencies := m.dependencies
      members := d.members ++ [.method m.build] })
    d

/-- Adds a constructor whose parameter types differ from those of all others. -/
def addConstructor (d : Draft kind) (calls : List (Call ConstructorStep)) : Run (Draft kind) :=
  let r := Call.runAll ConstructorStep.run calls (.new d.dependencies d.name)
  match r.result with
  | .error e => ⟨d, r.log, .error e⟩
  | .ok () =>
    let signature := r.state.signature
    if d.signatures.contains signature then
      (Run.fail d (.duplicateConstructor d.name (Text.join ", " signature))).after r.log
    else
      (Run.done { d with
        dependencies := r.state.dependencies
        members := d.members ++ [.constructor r.state.build]
        signatures := d.signatures ++ [signature] }).after r.log

/-- Adds a primary parameter. -/
def addParameter (d : Draft kind) (name : String) (type : TypeRef) : Draft kind :=
  { d with
    dependencies := d.dependencies.add type
    parameters := d.parameters ++ [⟨name, type⟩] }

end Draft

/-- The calls on a declaration of the given kind. What an interface extends are interfaces; only
classes and records implement interfaces, only classes have constructors, and only records have
primary parameters. Whoever makes the calls may `fail` with any error. -/
inductive DeclarationStep : DeclarationKind → Type where
  | extend {kind : DeclarationKind} (type : TypeRef) : DeclarationStep kind
  | implement {kind : DeclarationKind} (type : TypeRef) (allowed : kind ≠ .interfaceDecl) :
      DeclarationStep kind
  | doc {kind : DeclarationKind} (text : String) : DeclarationStep kind
  | modifier {kind : DeclarationKind} (modifier : Modifier) : DeclarationStep kind
  | attributes {kind : DeclarationKind} (calls : List (Call AttributeStep)) : DeclarationStep kind
  | properties {kind : DeclarationKind} (calls : List (Call PropertyStep)) : DeclarationStep kind
  | method {kind : DeclarationKind} (name : String) (calls : List (Call MethodStep)) :
      DeclarationStep kind
  | constructor (calls : List (Call ConstructorStep)) : DeclarationStep .classDecl
  | defaultConstructor : DeclarationStep .classDecl
  | parameter (name : String) (type : TypeRef) : DeclarationStep .recordDecl
  | fail {kind : DeclarationKind} (error : BuildError := .noCurrentProperty) :
      DeclarationStep kind

namespace DeclarationStep

/-- Runs a call. -/
def run {kind : DeclarationKind} : DeclarationStep kind → Draft kind → Run (Draft kind)
  | .extend type, d => if d.inInterface then d.addInterface type else d.setBase type
  | .implement type _, d => d.addInterface type
  | .doc text, d => .done { d with doc := some text }
  | .modifier m, d => .done { d with modifiers := d.modifiers.insert m }
  | .attributes calls, d => d.addAttributes calls
  | .properties calls, d => d.addProperties calls
  | .method name calls, d => d.addMethod name calls
  | .constructor calls, d => d.addConstructor calls
  | .defaultConstructor, d => d.addConstructor []
  | .parameter name type, d => .done (d.addParameter name type)
  | .fail error, d => .fail d error

/-- Runs calls in order, up to the first failure that is not caught. -/
def runAll {kind : DeclarationKind} (calls : List (Call (DeclarationStep kind)))
    (d : Draft kind) : Run (Draft kind) :=
  Call.runAll run calls d

end DeclarationStep

end SharpSmith.Build
