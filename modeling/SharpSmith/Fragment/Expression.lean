import SharpSmith.Fragment.Delimiters
import SharpSmith.Fragment.Join
import SharpSmith.Fragment.Lexeme

/-!
# Expressions

An expression is a balanced run of operands and operators without a `;` outside of groups. It is
kept as its text with the spaces of formatted C#.
-/

namespace SharpSmith

/-- An expression, as its text. -/
structure Expression where
  text : String
  deriving Repr, DecidableEq, Inhabited

namespace Fragment

/-- The tokens of a fragment without directives, whose delimiters are balanced. -/
def balancedTokens (text : String) : Except Located (List Token) := do
  let ts ← tokenize false text
  let _ ← Delimiters.partners ts
  return ts

end Fragment

namespace Expression

open Fragment

/-- The fault of a balanced list of tokens that is no expression, in a text of `size` bytes. -/
def fault? (size : Nat) (ts : List Token) : Option Located :=
  if ts.isEmpty then some ⟨.missingExpression, ⟨0, size⟩⟩
  else
    match cutAtSemicolon? 0 ts with
    | some (_, semicolon, _) => some (Fault.at .statementEnd semicolon)
    | none => operandFault? ts

/-- Reads a text as an expression. -/
def parse (text : String) : Except SyntaxError Expression :=
  match balancedTokens text with
  | .error e => .error (.ofLocated .expression e)
  | .ok ts =>
    match fault? text.utf8ByteSize ts with
    | some e => .error (.ofLocated .expression e)
    | none => .ok ⟨joinTokens ts⟩

/-- Reads texts as expressions, up to the first that is none. -/
def parseAll : List String → Except SyntaxError (List Expression)
  | [] => .ok []
  | text :: texts => do
    let e ← parse text
    let es ← parseAll texts
    return e :: es

end Expression

end SharpSmith
