import SharpSmith.TypeRef

/-!
# Well-known types

The catalog of framework types that are known by their simple name and number of type arguments,
each with its namespace and the assembly that declares it.
-/

namespace SharpSmith.Catalog

/-- A type that the catalog knows. -/
structure Entry where
  names : List String
  arity : Nat
  kind : TypeKind
  origin : String
  artifact : String
  deriving Repr, DecidableEq, Inhabited

/-- A generic collection with one name. -/
def collection (name : String) (arity : Nat) (kind : TypeKind) : Entry :=
  ⟨[name], arity, kind, "System.Collections.Generic", "System.Collections"⟩

/-- A type of the namespace `System`. -/
def system (name : String) (arity : Nat) (kind : TypeKind) : Entry :=
  ⟨[name], arity, kind, "System", "System.Runtime"⟩

/-- A task with the given number of results. -/
def task (arity : Nat) : Entry :=
  ⟨["Task"], arity, .classType, "System.Threading.Tasks", "System.Runtime"⟩

/-- An attribute, which is also known without its ending. -/
def annotated (name origin artifact : String) : Entry :=
  ⟨[name ++ "Attribute", name], 0, .classType, origin, artifact⟩

/-- The namespace of the attributes for JSON. -/
def jsonSpace : String :=
  "System.Text.Json.Serialization"

/-- The types of the catalog. -/
def entries : List Entry :=
  [collection "List" 1 .classType,
   collection "HashSet" 1 .classType,
   collection "IEnumerable" 1 .interfaceType,
   collection "IReadOnlyList" 1 .interfaceType,
   system "IEquatable" 1 .interfaceType,
   collection "Dictionary" 2 .classType,
   task 0,
   task 1,
   ⟨["Console"], 0, .classType, "System", "System.Console"⟩,
   system "Exception" 0 .classType,
   system "IDisposable" 0 .interfaceType,
   system "Guid" 0 .structType,
   system "DateTime" 0 .structType,
   system "TimeSpan" 0 .structType,
   annotated "Serializable" "System" "System.Runtime",
   annotated "Obsolete" "System" "System.Runtime",
   annotated "JsonSerializable" jsonSpace "System.Text.Json",
   annotated "JsonPropertyName" jsonSpace "System.Text.Json"]

/-- The reference to a catalog type, under its first name. -/
def Entry.typeRef (e : Entry) (args : List TypeRef) : TypeRef :=
  ⟨e.names.headD "", some e.origin, e.kind, some e.artifact, args⟩

/-- The type with the given name and arguments: a built-in type when there are no arguments and
the name is one of its two, else an entry of the catalog. -/
def lookup? (name : String) (args : List TypeRef) : Option TypeRef :=
  match (if args.isEmpty then BuiltIn.ofName? name else none) with
  | some b => some (.ofBuiltIn b)
  | none =>
    (entries.find? (fun e => e.names.contains name && e.arity == args.length)).map
      (fun e => e.typeRef args)

/-- Lists of a type. -/
def list (item : TypeRef) : TypeRef :=
  (collection "List" 1 .classType).typeRef [item]

/-- Sets of a type. -/
def hashSet (item : TypeRef) : TypeRef :=
  (collection "HashSet" 1 .classType).typeRef [item]

/-- Dictionaries from one type to another. -/
def dictionary (key value : TypeRef) : TypeRef :=
  (collection "Dictionary" 2 .classType).typeRef [key, value]

end SharpSmith.Catalog
