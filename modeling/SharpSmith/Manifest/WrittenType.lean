import SharpSmith.Manifest.Definition

/-!
# Written types

The types that a manifest writes: a name, type arguments in angle brackets, and any number of array
brackets, with white space between.
-/

namespace SharpSmith

/-- A type as it is written. `span` is the place of the name in the text of the expression. -/
structure WrittenType where
  name : String
  args : List WrittenType
  rank : Nat
  span : Span
  deriving Repr, Inhabited

namespace WrittenType

mutual

/-- Whether two types are written alike and at the same places. -/
def decEq : (e e' : WrittenType) → Decidable (e = e')
  | ⟨name, args, rank, span⟩, ⟨name', args', rank', span'⟩ =>
    have : Decidable (args = args') := decEqAll args args'
    decidable_of_iff (name = name' ∧ args = args' ∧ rank = rank' ∧ span = span')
      (iff_of_eq (mk.injEq ..).symm)

/-- Whether two lists of types are written alike and at the same places. -/
def decEqAll : (es es' : List WrittenType) → Decidable (es = es')
  | [], [] => .isTrue rfl
  | e :: es, e' :: es' =>
    have : Decidable (e = e') := decEq e e'
    have : Decidable (es = es') := decEqAll es es'
    decidable_of_iff (e = e' ∧ es = es') (iff_of_eq (List.cons.injEq ..).symm)
  | [], _ :: _ | _ :: _, [] => .isFalse nofun

end

/-- That two types are written alike can be decided. -/
instance : DecidableEq WrittenType := decEq

/-- Why a text writes no type. -/
inductive Fault where
  | missingName
  | digitStart
  | qualified
  | missingSeparator
  | missingBracket
  | trailing
  deriving Repr, DecidableEq, Inhabited

/-- The wording of a fault. -/
def Fault.reason : Fault → String
  | .missingName => "expected a type name"
  | .digitStart => "type names cannot start with a digit"
  | .qualified => "qualified names are not supported; declare the type under [types]"
  | .missingSeparator => "expected ',' or '>'"
  | .missingBracket => "expected ']'"
  | .trailing => "unexpected trailing input"

/-- A fault and its place in the text of the expression. -/
structure Error where
  fault : Fault
  span : Span
  deriving Repr, DecidableEq, Inhabited

/-- The place of the rest `cs` of a text of `size` bytes. -/
def offsetOf (size : Nat) (cs : List Char) : Nat :=
  size - Text.byteLength cs

/-- A fault at the next character. -/
def errorAt (size : Nat) (fault : Fault) (cs : List Char) : Error :=
  ⟨fault, ⟨offsetOf size cs, Text.byteLength (cs.take 1)⟩⟩

/-- Array brackets: how many pairs, and the rest. Each pair takes two characters, so the number of
characters is enough for `budget`. -/
def brackets (size : Nat) : (budget : Nat) → List Char → Except Error (Nat × List Char)
  | 0, cs => .ok (0, cs)
  | budget + 1, cs =>
    match Text.trimStart cs with
    | '[' :: cs =>
      match Text.trimStart cs with
      | ']' :: cs =>
        match brackets size budget cs with
        | .ok (n, cs) => .ok (n + 1, cs)
        | .error e => .error e
      | cs => .error (errorAt size .missingBracket cs)
    | cs => .ok (0, cs)

/-- The name that a type starts with, the place of the name, and the rest. -/
def readName (size : Nat) (cs : List Char) : Except Error ((String × Span) × List Char) :=
  let cs := Text.trimStart cs
  let name := cs.takeWhile Text.continuesWord
  let rest := cs.drop name.length
  let span : Span := ⟨offsetOf size cs, Text.byteLength name⟩
  if name.isEmpty then .error (errorAt size .missingName cs)
  else if name.head?.any Char.isDigit then .error ⟨.digitStart, span⟩
  else if rest.head? = some '.' then .error (errorAt size .qualified rest)
  else .ok ((String.ofList name, span), rest)

mutual

/-- The type that the text starts with, and the rest. Every type takes a character, so the number
of characters is enough for `budget`. -/
def readType (size : Nat) : (budget : Nat) → List Char → Except Error (WrittenType × List Char)
  | 0, cs => .error (errorAt size .missingName (Text.trimStart cs))
  | budget + 1, cs => do
    let ((name, span), cs) ← readName size cs
    let (args, cs) ←
      match Text.trimStart cs with
      | '<' :: cs => readArgs size budget cs
      | cs => .ok ([], cs)
    let (rank, cs) ← brackets size cs.length cs
    return (⟨name, args, rank, span⟩, cs)

/-- Type arguments up to the bracket that closes them, and the rest. -/
def readArgs (size : Nat) : (budget : Nat) → List Char → Except Error (List WrittenType × List Char)
  | 0, cs => .error (errorAt size .missingName (Text.trimStart cs))
  | budget + 1, cs => do
    let (arg, cs) ← readType size budget cs
    match Text.trimStart cs with
    | ',' :: cs => do
      let (args, cs) ← readArgs size budget cs
      return (arg :: args, cs)
    | '>' :: cs => return ([arg], cs)
    | cs => throw (errorAt size .missingSeparator cs)

end

/-- Reads the type that a text writes. -/
def parse (text : String) : Except Error WrittenType := do
  let cs := text.toList
  let size := Text.byteLength cs
  let (e, cs) ← readType size (2 * cs.length + 1) cs
  match Text.trimStart cs with
  | [] => return e
  | cs => throw (errorAt size .trailing cs)

end WrittenType

end SharpSmith
