import SharpSmith.Text.Basic

/-!
# Type references

A reference to a C# type: what it is called, where it is declared, what kind of type it is, which
assembly backs it, and its type arguments. The text of a type never spells out a namespace, since
the file that mentions the type imports it.
-/

namespace SharpSmith

/-- The kinds of types that a declaration can refer to. -/
inductive TypeKind where
  | classType
  | interfaceType
  | structType
  | recordType
  | enumType
  | delegateType
  | arrayType
  | builtIn
  deriving Repr, DecidableEq, Inhabited

namespace TypeKind

/-- All kinds of types. -/
def all : List TypeKind :=
  [.classType, .interfaceType, .structType, .recordType, .enumType, .delegateType, .arrayType,
   .builtIn]

/-- The name of a kind in messages. -/
def label : TypeKind → String
  | .classType => "class"
  | .interfaceType => "interface"
  | .structType => "struct"
  | .recordType => "record"
  | .enumType => "enum"
  | .delegateType => "delegate"
  | .arrayType => "array"
  | .builtIn => "built-in"

/-- The word for a kind in a manifest. -/
def tag : TypeKind → String
  | .builtIn => "builtin"
  | kind => kind.label

/-- The kind that a manifest's word stands for. -/
def ofTag? (word : String) : Option TypeKind :=
  all.find? (fun kind => kind.tag == word)

end TypeKind

/-- The types that C# has a keyword for. -/
inductive BuiltIn where
  | bool
  | byte
  | sbyte
  | char
  | decimal
  | double
  | float
  | int
  | uint
  | long
  | ulong
  | short
  | ushort
  | object
  | string
  deriving Repr, DecidableEq, Inhabited

namespace BuiltIn

/-- All built-in types. -/
def all : List BuiltIn :=
  [.bool, .byte, .sbyte, .char, .decimal, .double, .float, .int, .uint, .long, .ulong, .short,
   .ushort, .object, .string]

/-- The keyword of a built-in type. -/
def keyword : BuiltIn → String
  | .bool => "bool"
  | .byte => "byte"
  | .sbyte => "sbyte"
  | .char => "char"
  | .decimal => "decimal"
  | .double => "double"
  | .float => "float"
  | .int => "int"
  | .uint => "uint"
  | .long => "long"
  | .ulong => "ulong"
  | .short => "short"
  | .ushort => "ushort"
  | .object => "object"
  | .string => "string"

/-- The name of the runtime type that the keyword stands for. -/
def runtimeName : BuiltIn → String
  | .bool => "Boolean"
  | .byte => "Byte"
  | .sbyte => "SByte"
  | .char => "Char"
  | .decimal => "Decimal"
  | .double => "Double"
  | .float => "Single"
  | .int => "Int32"
  | .uint => "UInt32"
  | .long => "Int64"
  | .ulong => "UInt64"
  | .short => "Int16"
  | .ushort => "UInt16"
  | .object => "Object"
  | .string => "String"

/-- The built-in type with the given keyword. -/
def ofKeyword? (word : String) : Option BuiltIn :=
  all.find? (fun b => b.keyword == word)

/-- The built-in type with the given keyword or runtime name. -/
def ofName? (word : String) : Option BuiltIn :=
  all.find? (fun b => b.keyword == word || b.runtimeName == word)

end BuiltIn

/-- A reference to a C# type. -/
structure TypeRef where
  name : String
  origin : Option String
  kind : TypeKind
  artifact : Option String
  args : List TypeRef
  deriving Repr, Inhabited

namespace TypeRef

/-- A type of the given kind, without a namespace. -/
def named (name : String) (kind : TypeKind) : TypeRef :=
  ⟨name, none, kind, none, []⟩

/-- A built-in type. It stands in the namespace `System`, which its keyword makes needless. -/
def ofBuiltIn (b : BuiltIn) : TypeRef :=
  ⟨b.keyword, some "System", .builtIn, none, []⟩

/-- The arrays of a type. The name of an array type is no identifier, so it clashes with none. -/
def array (element : TypeRef) : TypeRef :=
  ⟨"[]", none, .arrayType, none, [element]⟩

/-- A type placed in a namespace; the empty namespace is no namespace. -/
def inNamespace (space : String) (t : TypeRef) : TypeRef :=
  { t with origin := if space.isEmpty then none else some space }

/-- A type backed by an assembly. -/
def fromArtifact (artifact : String) (t : TypeRef) : TypeRef :=
  { t with artifact := some artifact }

/-- A type applied to further arguments. -/
def applied (args : List TypeRef) (t : TypeRef) : TypeRef :=
  { t with args := t.args ++ args }

/-- Whether a type is built in. -/
def isBuiltIn (t : TypeRef) : Bool :=
  t.kind == .builtIn

/-- Whether a type is an interface. -/
def isInterface (t : TypeRef) : Bool :=
  t.kind == .interfaceType

/-- Whether a type is an array. -/
def isArray (t : TypeRef) : Bool :=
  t.kind == .arrayType

/-- The number of type arguments; the element type of an array is none. -/
def arity (t : TypeRef) : Nat :=
  if t.isArray then 0 else t.args.length

/-- Whether a type has type arguments. -/
def isGeneric (t : TypeRef) : Bool :=
  decide (0 < t.arity)

/-- The name of a type after its namespace, without type arguments. -/
def qualifiedName (t : TypeRef) : String :=
  match t.origin with
  | some space => if t.isBuiltIn || t.isArray then t.name else space ++ "." ++ t.name
  | none => t.name

mutual

/-- The text of a type in a source file. An array without an element type is one of objects. -/
def display : TypeRef → String
  | ⟨name, _, kind, _, args⟩ =>
    if kind == .arrayType then
      (displayAll args).head?.getD BuiltIn.object.keyword ++ "[]"
    else if args.isEmpty then name
    else name ++ "<" ++ Text.join ", " (displayAll args) ++ ">"

/-- The texts of several types. -/
def displayAll : List TypeRef → List String
  | [] => []
  | t :: ts => display t :: displayAll ts

end

mutual

/-- Whether two references mean the same type: the same name, namespace and arguments. The kind
and the assembly only describe. -/
def same : TypeRef → TypeRef → Bool
  | ⟨name, origin, _, _, args⟩, u =>
    name == u.name && origin == u.origin && sameAll args u.args

/-- Whether two lists of references mean the same types in the same order. -/
def sameAll : List TypeRef → List TypeRef → Bool
  | [], [] => true
  | t :: ts, u :: us => same t u && sameAll ts us
  | _, _ => false

end

mutual

/-- A type followed by the types in its arguments, at any depth. -/
def nodes : TypeRef → List TypeRef
  | ⟨name, origin, kind, artifact, args⟩ => ⟨name, origin, kind, artifact, args⟩ :: nodesAll args

/-- The types in a list of types, at any depth. -/
def nodesAll : List TypeRef → List TypeRef
  | [] => []
  | t :: ts => nodes t ++ nodesAll ts

end

/-- Whether each type of a list means another type than all before it. -/
def freshness (seen : List TypeRef) : List TypeRef → List Bool
  | [] => []
  | t :: ts =>
    let fresh := !seen.any (same t)
    fresh :: freshness (if fresh then seen ++ [t] else seen) ts

end TypeRef

end SharpSmith
