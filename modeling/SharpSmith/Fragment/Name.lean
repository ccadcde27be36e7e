import SharpSmith.Fragment.Lexeme

/-!
# Names

A name is identifiers with dots between.
-/

namespace SharpSmith

/-- A name, as the identifiers between its dots. -/
structure Name where
  segments : List String
  deriving Repr, DecidableEq, Inhabited

namespace Name

open Fragment

/-- The last identifier of a name. -/
def simple (n : Name) : String :=
  n.segments.getLast?.getD ""

/-- The text of a name. -/
def text (n : Name) : String :=
  Text.join "." n.segments

mutual

/-- The identifiers of a list of tokens that starts with one, after the dot `dot`, if any. -/
def segmentsFrom (dot : Option Token) : List Token → Except Located (List String)
  | [] =>
    match dot with
    | some dot => .error (Fault.at .expectedIdentifierAfterDot dot)
    | none => .ok []
  | t :: ts =>
    if t.kind != .identifier then .error (Fault.at .expectedIdentifier t)
    else
      match dotFrom ts with
      | .ok segments => .ok (t.text :: segments)
      | .error e => .error e

/-- The identifiers of a list of tokens that is empty or starts with a dot. -/
def dotFrom : List Token → Except Located (List String)
  | [] => .ok []
  | t :: ts =>
    if t.is "." then segmentsFrom (some t) ts else .error (Fault.at (.expected ".") t)

end

/-- The name that a list of tokens spells, in a text of `size` bytes. -/
def ofTokens (size : Nat) (ts : List Token) : Except Located Name :=
  if ts.isEmpty then .error ⟨.missingName, ⟨0, size⟩⟩
  else (segmentsFrom none ts).map Name.mk

/-- Reads a text as a name. -/
def parse (text : String) : Except SyntaxError Name :=
  match tokenize false text >>= ofTokens text.utf8ByteSize with
  | .error e => .error (.ofLocated .name e)
  | .ok n => .ok n

end Name

end SharpSmith
