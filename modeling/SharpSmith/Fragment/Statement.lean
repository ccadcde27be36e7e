import SharpSmith.Fragment.Expression

/-!
# Statements

A statement is found by the shape of its tokens: a block, a statement with a header and a body, or
a run of operands and operators that ends with `;`. Nothing is said about what its names mean.
-/

namespace SharpSmith

/-- The kinds of statements: a lone `;`, one that is or has a block or a header, a `return`, and
all others. -/
inductive StatementKind where
  | empty
  | compound
  | returns
  | simple
  deriving Repr, DecidableEq, Inhabited

/-- A statement, as its kind and its text. -/
structure Statement where
  kind : StatementKind
  text : String
  deriving Repr, DecidableEq, Inhabited

namespace Statement

open Fragment

/-- The words that start a statement with a header in parentheses and a body. -/
def headed : List String :=
  ["if", "while", "for", "foreach", "lock", "fixed", "switch"]

/-- The words that start a statement when a block follows. -/
def blockModes : List String :=
  ["checked", "unchecked", "unsafe"]

/-- A fault at the first of the tokens that are left, or at the end of a text of `size` bytes. -/
def faultBefore (size : Nat) (fault : Fault) : List Token → Located
  | [] => ⟨fault, ⟨size, 0⟩⟩
  | t :: _ => Fault.at fault t

/-- The tokens after a group that has to start with `opener`. -/
def group (size : Nat) (opener : String) (ts : List Token) : Except Located (List Token) :=
  match ts with
  | [] => .error (faultBefore size (.expected opener) ts)
  | t :: rest =>
    if t.is opener then .ok (afterGroup 0 rest)
    else .error (faultBefore size (.expected opener) ts)

/-- Whether the first token is the given reserved word. -/
def startsWith (word : String) (ts : List Token) : Bool :=
  ts.head?.any (·.isKeyword word)

/-- Whether the first token is the given punctuator. -/
def startsAt (text : String) (ts : List Token) : Bool :=
  ts.head?.any (·.is text)

/-- The tokens after a simple statement: a run of operands and operators up to the first `;`
outside of groups. -/
def afterSimple (size : Nat) (ts : List Token) : Except Located (List Token) :=
  match cutAtSemicolon? 0 ts with
  | some (before, _, after) =>
    match operandFault? before with
    | some e => .error e
    | none => .ok after
  | none => .error (faultBefore size (.expected ";") ts.getLast?.toList)

/-- The tokens after one `catch` clause, read from just after that word. -/
def afterCatch (size : Nat) (ts : List Token) : Except Located (List Token) := do
  let ts ← if startsAt "(" ts then group size "(" ts else pure ts
  let ts ← if ts.head?.any (·.text == "when") then group size "(" ts.tail else pure ts
  group size "\x7b" ts

/-- The tokens after all `catch` clauses, and whether there was one. Every clause takes a token,
so the number of tokens is enough for `budget`. -/
def afterCatches (size : Nat) (handled : Bool) :
    (budget : Nat) → List Token → Except Located (List Token × Bool)
  | 0, ts => .ok (ts, handled)
  | budget + 1, ts =>
    if startsWith "catch" ts then do
      afterCatches size true budget (← afterCatch size ts.tail)
    else .ok (ts, handled)

/-- The tokens after a `try` statement, read from just after that word. -/
def afterTry (size : Nat) (ts : List Token) : Except Located (List Token) := do
  let ts ← group size "\x7b" ts
  let (ts, handled) ← afterCatches size false ts.length ts
  if startsWith "finally" ts then group size "\x7b" ts.tail
  else if handled then return ts
  else throw (faultBefore size .expectedHandler ts)

/-- The tokens after the end of a `do` statement, read from just after its body. -/
def afterDoBody (size : Nat) (ts : List Token) : Except Located (List Token) := do
  if !startsWith "while" ts then throw (faultBefore size (.expected "while") ts)
  let ts ← group size "(" ts.tail
  if !startsAt ";" ts then throw (faultBefore size (.expected ";") ts)
  return ts.tail

/-- The tokens after the statement that `ts` starts with. Every statement takes a token, so the
number of tokens is enough for `budget`. -/
def afterStatement (size : Nat) : (budget : Nat) → List Token → Except Located (List Token)
  | 0, ts => .error (faultBefore size .missingStatement ts)
  | _ + 1, [] => .error (faultBefore size .missingStatement [])
  | budget + 1, t :: ts =>
    if t.is "\x7b" then .ok (afterGroup 0 ts)
    else if t.is ";" then .ok ts
    else if t.isKeyword "switch" then do
      group size "\x7b" (← group size "(" ts)
    else if t.isKeyword "if" then do
      let body ← group size "(" ts
      let rest ← afterStatement size budget body
      if startsWith "else" rest then afterStatement size budget rest.tail else return rest
    else if t.isKeywordIn headed || (t.isKeyword "using" && startsAt "(" ts) then do
      let body ← group size "(" ts
      afterStatement size budget body
    else if t.isKeyword "do" then do
      let rest ← afterStatement size budget ts
      afterDoBody size rest
    else if t.isKeyword "try" then afterTry size ts
    else if t.isKeywordIn blockModes && startsAt "\x7b" ts then group size "\x7b" ts
    else afterSimple size (t :: ts)

/-- The kind of the statement that consists of the given tokens. -/
def kindOf : List Token → StatementKind
  | [] => .empty
  | t :: ts =>
    if ts.isEmpty && t.is ";" then .empty
    else if t.isKeyword "return" then .returns
    else if (t :: ts).getLast?.any (·.is "\x7d") || t.is "\x7b" then .compound
    else if t.isKeywordIn headed || t.isKeyword "do" || t.isKeyword "try" then .compound
    else .simple

/-- The tokens of the one statement that a balanced list of tokens holds. A `;` after a statement
that ends with a brace is dropped. -/
def only (size : Nat) (ts : List Token) : Except Located (List Token) :=
  if ts.isEmpty then .error ⟨.missingStatement, ⟨0, size⟩⟩
  else do
    let rest ← afterStatement size ts.length ts
    let used := ts.take (ts.length - rest.length)
    match rest with
    | [] => return used
    | extra :: more =>
      if more.isEmpty && extra.is ";" && used.getLast?.any (·.is "\x7d") then return used
      else throw ⟨.severalStatements, ⟨extra.offset, size - extra.offset⟩⟩

/-- Reads a text as one statement. -/
def parse (text : String) : Except SyntaxError Statement :=
  match balancedTokens text >>= only text.utf8ByteSize with
  | .error e => .error (.ofLocated .statement e)
  | .ok used => .ok ⟨kindOf used, joinTokens used⟩

/-- Reads a line as one statement, which may lack its last `;`. -/
def parseLine (line : String) : Except SyntaxError Statement :=
  let cs := Text.trimEnd line.toList
  if cs.getLast? = some ';' then parse line
  else parse (String.ofList (cs ++ [';']))

end Statement

end SharpSmith
