import SharpSmith.Catalog

/-!
# Data types

The shapes of data for which there is a C# type, so that a caller can name a type by the data it
holds.
-/

namespace SharpSmith

/-- A shape of data. -/
inductive DataType where
  | bool
  | char
  | text
  | int8
  | int16
  | int32
  | int64
  | uint8
  | uint16
  | uint32
  | uint64
  | float32
  | float64
  | array (element : DataType)
  | list (item : DataType)
  | set (item : DataType)
  | map (key value : DataType)
  deriving Repr, DecidableEq, Inhabited

/-- The C# type of a shape of data. -/
def DataType.typeRef : DataType → TypeRef
  | .bool => .ofBuiltIn .bool
  | .char => .ofBuiltIn .char
  | .text => .ofBuiltIn .string
  | .int8 => .ofBuiltIn .sbyte
  | .int16 => .ofBuiltIn .short
  | .int32 => .ofBuiltIn .int
  | .int64 => .ofBuiltIn .long
  | .uint8 => .ofBuiltIn .byte
  | .uint16 => .ofBuiltIn .ushort
  | .uint32 => .ofBuiltIn .uint
  | .uint64 => .ofBuiltIn .ulong
  | .float32 => .ofBuiltIn .float
  | .float64 => .ofBuiltIn .double
  | .array element => .array element.typeRef
  | .list item => Catalog.list item.typeRef
  | .set item => Catalog.hashSet item.typeRef
  | .map key value => Catalog.dictionary key.typeRef value.typeRef

end SharpSmith
