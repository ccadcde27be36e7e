import SharpSmith.Code
import SharpSmith.Span
import SharpSmith.TypeRef

/-!
# Manifests

A manifest describes the declarations of one source file. Texts that an error may have to point at
come with the place where they are written.
-/

namespace SharpSmith

/-- A text of a manifest and the stretch that it is written in, quotes included. -/
structure Quoted where
  value : String
  span : Span
  deriving Repr, DecidableEq, Inhabited

/-- The text of a manifest and the name of its file. -/
structure Document where
  text : String
  filename : String
  deriving Repr, DecidableEq, Inhabited

/-- An attribute with the texts of its arguments. -/
structure AttributeEntry where
  type : Quoted
  args : List Quoted
  deriving Repr, DecidableEq, Inhabited

/-- A parameter. -/
structure ParameterEntry where
  name : Quoted
  type : Quoted
  deriving Repr, DecidableEq, Inhabited

/-- A property. Without accessors it has a getter, and outside of interfaces a setter. -/
structure PropertyEntry where
  name : Quoted
  type : Quoted
  access : Option Quoted
  accessors : Option (List Quoted)
  doc : Option String
  attributes : List AttributeEntry
  deriving Repr, DecidableEq, Inhabited

/-- What a constructor passes to the base class: a word for what to pass, or arguments. -/
inductive BaseEntry where
  | keyword (word : String)
  | args (args : List String)
  deriving Repr, DecidableEq, Inhabited

/-- A constructor. -/
structure ConstructorEntry where
  parameters : List ParameterEntry
  access : Option Quoted
  base : Option BaseEntry
  body : List Quoted
  doc : Option String
  attributes : List AttributeEntry
  deriving Repr, DecidableEq, Inhabited

/-- A method. Without a return type it returns nothing. -/
structure MethodEntry where
  name : Quoted
  returns : Option Quoted
  parameters : List ParameterEntry
  modifiers : List Quoted
  body : Option (List Quoted)
  doc : Option String
  attributes : List AttributeEntry
  deriving Repr, DecidableEq, Inhabited

/-- A class. -/
structure ClassEntry where
  name : Quoted
  doc : Option String
  modifiers : List Quoted
  base : Option Quoted
  interfaces : List Quoted
  attributes : List AttributeEntry
  properties : List PropertyEntry
  constructors : List ConstructorEntry
  methods : List MethodEntry
  deriving Repr, DecidableEq, Inhabited

/-- An interface. -/
structure InterfaceEntry where
  name : Quoted
  doc : Option String
  modifiers : List Quoted
  bases : List Quoted
  attributes : List AttributeEntry
  properties : List PropertyEntry
  methods : List MethodEntry
  deriving Repr, DecidableEq, Inhabited

/-- A record with its primary parameters. -/
structure RecordEntry where
  name : Quoted
  doc : Option String
  modifiers : List Quoted
  parameters : List ParameterEntry
  base : Option Quoted
  interfaces : List Quoted
  attributes : List AttributeEntry
  properties : List PropertyEntry
  methods : List MethodEntry
  deriving Repr, DecidableEq, Inhabited

/-- A declaration of any kind. -/
inductive Definition where
  | ofClass (d : ClassEntry)
  | ofInterface (d : InterfaceEntry)
  | ofRecord (d : RecordEntry)
  deriving Repr, DecidableEq, Inhabited

namespace Definition

/-- The name of a declaration. -/
def name : Definition → Quoted
  | .ofClass d => d.name
  | .ofInterface d => d.name
  | .ofRecord d => d.name

/-- The kind of a declaration. -/
def kind : Definition → DeclarationKind
  | .ofClass _ => .classDecl
  | .ofInterface _ => .interfaceDecl
  | .ofRecord _ => .recordDecl

/-- The properties of a declaration. -/
def properties : Definition → List PropertyEntry
  | .ofClass d => d.properties
  | .ofInterface d => d.properties
  | .ofRecord d => d.properties

/-- The methods of a declaration. -/
def methods : Definition → List MethodEntry
  | .ofClass d => d.methods
  | .ofInterface d => d.methods
  | .ofRecord d => d.methods

end Definition

/-- A type that is declared elsewhere. -/
structure ExternalType where
  space : Option String
  kind : TypeKind
  assembly : Option String
  deriving Repr, DecidableEq, Inhabited

/-- Types that are declared elsewhere, each name once, in the order of the manifest. -/
structure ExternalTypes where
  entries : List (String × ExternalType)
  distinct : (entries.map Prod.fst).Nodup
  deriving Repr, DecidableEq

namespace ExternalTypes

/-- No types. -/
def empty : ExternalTypes :=
  ⟨[], List.nodup_nil⟩

/-- There are no types from elsewhere unless something else is said. -/
instance : Inhabited ExternalTypes := ⟨empty⟩

/-- The types of a list, if each name is there once. -/
def ofList? (entries : List (String × ExternalType)) : Option ExternalTypes :=
  if h : (entries.map Prod.fst).Nodup then some ⟨entries, h⟩ else none

/-- The type with the given name. -/
def get? (types : ExternalTypes) (name : String) : Option ExternalType :=
  (types.entries.find? (fun e => e.1 == name)).map (·.2)

end ExternalTypes

/-- A manifest: the namespace of its declarations and how it is written, the types that are
declared elsewhere, the declarations by kind, and the document it was read from. -/
structure Manifest where
  space : String
  style : NamespaceStyle
  types : ExternalTypes
  classes : List ClassEntry
  interfaces : List InterfaceEntry
  records : List RecordEntry
  document : Document
  deriving Repr, DecidableEq, Inhabited

namespace Manifest

/-- All declarations, in the order in which their names are written. -/
def definitions (m : Manifest) : List Definition :=
  (m.classes.map Definition.ofClass ++ m.interfaces.map Definition.ofInterface ++
    m.records.map Definition.ofRecord).mergeSort
      fun a b => decide (a.name.span.offset ≤ b.name.span.offset)

end Manifest

end SharpSmith
