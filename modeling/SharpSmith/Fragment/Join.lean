import SharpSmith.Fragment.Role

/-!
# Joining tokens

Tokens are put together with the spaces of formatted C#: none around a member access or inside
brackets, one around an infix operator, none after a prefix operator. Casts and shifts keep the
spaces that were there. A run of operands and operators neither starts nor ends with an infix
operator and has no two of them in a row.
-/

namespace SharpSmith.Fragment

/-- The reserved words that a parenthesis follows without a space. -/
def callKeywords : List String :=
  ["typeof", "sizeof", "default", "base", "this", "checked", "unchecked", "new"]

/-- Whether a token can be called or indexed. -/
def callable (t : Token) (role : Role) : Bool :=
  match t.kind with
  | .identifier => true
  | .keyword => callKeywords.contains t.text
  | .punctuator => t.text == ")" || t.text == "]" || role == .genericClose || role == .after
  | _ => false

/-- Whether two tokens are the signs of a shift to the right, which stand together. -/
def isShift (previous current : Token) : Bool :=
  previous.is ">" && !current.spaced && (current.text == ">" || current.text == ">=")

/-- Whether a space stands between two tokens. -/
def spaceBetween : Token × Role → Token × Role → Bool
  | (p, pr), (c, cr) =>
    if c.kind == .punctuator && [".", ",", ";", ")", "]", "?.", "::", ".."].contains c.text then
      false
    else if p.kind == .punctuator && [".", "(", "[", "?.", "::", ".."].contains p.text then false
    else if pr == .before || pr == .genericOpen then false
    else if [Role.genericOpen, .genericClose, .nullable, .after, .colon].contains cr then false
    else if pr == .between && isShift p c then false
    else if c.is "(" then !callable p pr
    else if c.is "[" then !(callable p pr || p.is "?" || p.isKeywordIn typeKeywords)
    else if p.is ")" && c.kind != .punctuator then c.spaced
    else true

/-- The text of tokens with roles that follow the token `previous`. -/
def joinAfter (previous : Token × Role) : List (Token × Role) → String
  | [] => ""
  | t :: ts =>
    (if spaceBetween previous t then " " else "") ++ t.1.text ++ joinAfter t ts

/-- The text of tokens with roles. -/
def joinRoles : List (Token × Role) → String
  | [] => ""
  | t :: ts => t.1.text ++ joinAfter t ts

/-- The text of tokens, with the spaces of formatted C#. -/
def joinTokens (ts : List Token) : String :=
  joinRoles (roles ts)

/-- The first infix operator that stands just after another one. Neither a shift nor a relational
pattern after a comma counts. -/
def doubledOperator? : List (Token × Role) → Option Token
  | (p, pr) :: (c, cr) :: ts =>
    let pattern := p.is "," && ["<", ">", "<=", ">="].contains c.text
    if cr == .between && pr == .between && !isShift p c && !pattern then some c
    else doubledOperator? ((c, cr) :: ts)
  | _ => none

/-- The last token, if it is an operator that waits for its right operand. -/
def danglingOperator? (ts : List (Token × Role)) : Option Token :=
  ts.getLast?.bind fun (t, r) =>
    if t.kind == .punctuator && !([Role.genericClose, .nullable, .after].contains r) &&
        (infixOperators.contains t.text ||
          ["+", "-", "*", "&", "!", "~", "<", ">"].contains t.text) then some t
    else none

/-- The fault of a run of operands and operators: an infix operator at its start, two in a row, or
an operator at its end. -/
def operandFault? (ts : List Token) : Option Located :=
  match ts.head?.filter (fun t => t.kind == .punctuator && infixOperators.contains t.text &&
      t.text != "::") with
  | some t => some (Fault.at (.operandBefore t.text) t)
  | none =>
    match doubledOperator? (roles ts) with
    | some t => some (Fault.at (.unexpected t.text) t)
    | none => (danglingOperator? (roles ts)).map fun t => Fault.at (.operandAfter t.text) t

end SharpSmith.Fragment
