import SharpSmith.Fragment.Token

/-!
# Roles

What a sign means is its role: a bracket of type arguments, a mark of a nullable type, an operator
before, after or between operands. Where the tokens alone leave it open (`Foo? x` or `a ? b : c`)
the spaces that were there decide.
-/

namespace SharpSmith.Fragment

/-- What a token does in its fragment, as far as spacing is concerned. -/
inductive Role where
  | plain
  | genericOpen
  | genericClose
  | nullable
  | conditional
  | conditionalElse
  | colon
  | before
  | after
  | between
  deriving Repr, DecidableEq, Inhabited

/-- The reserved words that name types. -/
def typeKeywords : List String :=
  ["bool", "byte", "sbyte", "char", "decimal", "double", "float", "int", "uint", "long", "ulong",
   "short", "ushort", "object", "string"]

/-- The reserved words that are operands. -/
def operandKeywords : List String :=
  ["this", "base", "null", "true", "false"]

/-- The operators that need an operand on both sides. -/
def infixOperators : List String :=
  ["=", "==", "!=", "<=", ">=", "&&", "||", "+=", "-=", "*=", "/=", "%=", "&=", "|=", "^=", "<<=",
   "??=", "<<", "??", "=>", "/", "%", "|", "^", "?", ":", ".", "?.", "::", ","]

/-- Whether a token may stand in a list of type arguments. -/
def inTypeArguments (t : Token) : Bool :=
  match t.kind with
  | .identifier => true
  | .keyword => typeKeywords.contains t.text
  | .punctuator => ["<", ">", ",", ".", "?", "[", "]"].contains t.text
  | _ => false

/-- The number of tokens up to the `>` that closes `depth + 1` lists of type arguments, that one
included; none when a token in between cannot stand in such a list. -/
def typeArgumentsEnd? (depth : Nat) : List Token → Option Nat
  | [] => none
  | t :: ts =>
    if !inTypeArguments t then none
    else if t.is "<" then (typeArgumentsEnd? (depth + 1) ts).map (· + 1)
    else if t.is ">" then
      match depth with
      | 0 => some 1
      | depth + 1 => (typeArgumentsEnd? depth ts).map (· + 1)
    else (typeArgumentsEnd? depth ts).map (· + 1)

/-- For each token whether it is a bracket of a list of type arguments. Such a list starts with a
`<` just after an identifier; `inside` tells how many of the tokens to come belong to one. -/
def genericBrackets (previous : Option Token) (inside : Nat) : List Token → List Bool
  | [] => []
  | t :: ts =>
    match inside with
    | inside + 1 => (t.is "<" || t.is ">") :: genericBrackets (some t) inside ts
    | 0 =>
      let named := previous.any (·.kind == .identifier)
      match (if t.is "<" && named then typeArgumentsEnd? 0 ts else none) with
      | some n => true :: genericBrackets (some t) n ts
      | none => false :: genericBrackets (some t) 0 ts

/-- Whether a token completes an operand, so that an operator after it is not a prefix. -/
def endsOperand : Option (Token × Role) → Bool
  | none => false
  | some (t, role) =>
    match t.kind with
    | .identifier | .number | .string | .character => true
    | .keyword => operandKeywords.contains t.text
    | .punctuator => t.text == ")" || t.text == "]" || role == .genericClose || role == .after
    | .directive => false

/-- Whether a `?` makes a type nullable: it follows a type without a space, and what comes next
can follow a type. -/
def isNullable (t : Token) (previous : Option (Token × Role)) (next : Option Token) : Bool :=
  let afterType := previous.any fun (p, role) =>
    p.isKeywordIn typeKeywords || p.kind == .identifier || p.is "]" || role == .genericClose
  let beforeDeclarator := next.all fun n =>
    n.kind == .identifier || [")", ",", ">", "[", ";", "=", "]"].contains n.text
  !t.spaced && afterType && beforeDeclarator &&
    next.all fun n => n.spaced || n.kind != .identifier

/-- The role of a token that is no bracket of type arguments, where `pending` conditionals wait
for their `:`. -/
def signRole (t : Token) (previous : Option (Token × Role)) (next : Option Token)
    (pending : Nat) : Role :=
  if t.text == "?" then (if isNullable t previous next then .nullable else .conditional)
  else if t.text == ":" then (if pending = 0 then .colon else .conditionalElse)
  else if t.text == "++" || t.text == "--" then
    (if endsOperand previous then .after else .before)
  else if t.text == "~" then .before
  else if t.text == "!" then
    (if !t.spaced && endsOperand previous then .after else .before)
  else if t.text == "-" || t.text == "+" then
    (if endsOperand previous then .between else .before)
  else if ["*", "&", "<", ">"].contains t.text || infixOperators.contains t.text then .between
  else .plain

/-- The role of a token. -/
def role (generic : Bool) (t : Token) (previous : Option (Token × Role)) (next : Option Token)
    (pending : Nat) : Role :=
  if t.kind != .punctuator then .plain
  else if generic then (if t.text == "<" then .genericOpen else .genericClose)
  else signRole t previous next pending

/-- The tokens with their roles, where each comes with whether it is a bracket of type arguments,
and `pending` conditionals wait for their `:`. -/
def assignRoles (previous : Option (Token × Role)) (pending : Nat) :
    List (Token × Bool) → List (Token × Role)
  | [] => []
  | (t, generic) :: ts =>
    let r := role generic t previous (ts.head?.map (·.1)) pending
    let pending :=
      match r with
      | .conditional => pending + 1
      | .conditionalElse => pending - 1
      | _ => pending
    (t, r) :: assignRoles (some (t, r)) pending ts

/-- The tokens of a fragment with their roles. -/
def roles (ts : List Token) : List (Token × Role) :=
  assignRoles none 0 (ts.zip (genericBrackets none 0 ts))

end SharpSmith.Fragment
