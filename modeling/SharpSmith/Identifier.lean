import SharpSmith.Text.Basic

/-!
# Identifiers

Which texts are C# identifiers and namespaces, and the name under which an attribute type is
applied.
-/

namespace SharpSmith.Identifier

/-- The reserved words of C#. -/
def keywords : List String :=
  ["abstract", "as", "base", "bool", "break", "byte", "case", "catch", "char", "checked",
   "class", "const", "continue", "decimal", "default", "delegate", "do", "double", "else",
   "enum", "event", "explicit", "extern", "false", "finally", "fixed", "float", "for",
   "foreach", "goto", "if", "implicit", "in", "int", "interface", "internal", "is", "lock",
   "long", "namespace", "new", "null", "object", "operator", "out", "override", "params",
   "private", "protected", "public", "readonly", "ref", "return", "sbyte", "sealed", "short",
   "sizeof", "stackalloc", "static", "string", "struct", "switch", "this", "throw", "true",
   "try", "typeof", "uint", "ulong", "unchecked", "unsafe", "ushort", "using", "virtual",
   "void", "volatile", "while"]

/-- Whether a word is reserved. -/
def isKeyword (word : String) : Bool :=
  keywords.contains word

/-- Why a text is not an identifier. -/
inductive Fault where
  | empty
  | badStart
  | badCharacter
  | reserved
  deriving Repr, DecidableEq, Inhabited

/-- The wording of a fault. -/
def Fault.reason : Fault → String
  | .empty => "identifier cannot be empty"
  | .badStart => "identifier must start with a letter or underscore"
  | .badCharacter => "identifier may only contain letters, digits and underscores"
  | .reserved => "identifier is a reserved C# keyword"

/-- The fault of an identifier without its escape. -/
def bareFault? (escaped : Bool) : List Char → Option Fault
  | [] => some .empty
  | c :: cs =>
    if !Text.startsWord c then some .badStart
    else if !cs.all Text.continuesWord then some .badCharacter
    else if !escaped && isKeyword (String.ofList (c :: cs)) then some .reserved
    else none

/-- Why a list of characters is not an identifier; a leading `@` escapes a reserved word. -/
def identifierFault? : List Char → Option Fault
  | '@' :: cs => bareFault? true cs
  | cs => bareFault? false cs

/-- Why a text is not an identifier, or nothing when it is one. -/
def fault? (name : String) : Option Fault :=
  identifierFault? name.toList

/-- Why a text is not a namespace, that is neither empty nor identifiers with dots between. -/
def namespaceFault? (name : String) : Option Fault :=
  if name.isEmpty then none
  else (Text.fields '.' name.toList).findSome? identifierFault?

/-- The ending that is left out when an attribute is applied. -/
def attributeEnding : List Char :=
  ['A', 't', 't', 'r', 'i', 'b', 'u', 't', 'e']

/-- The name under which an attribute type is applied: its name without the ending `Attribute`,
unless nothing would be left. -/
def attributeName (name : String) : String :=
  let cs := name.toList
  if attributeEnding.isSuffixOf cs && cs.length != attributeEnding.length then
    String.ofList (cs.take (cs.length - attributeEnding.length))
  else name

end SharpSmith.Identifier
