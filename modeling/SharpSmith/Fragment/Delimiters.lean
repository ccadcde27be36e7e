import SharpSmith.Fragment.Token

/-!
# Delimiters

Parentheses, brackets and braces, and the pairing of each one that opens with the one that closes
it.
-/

namespace SharpSmith.Fragment

/-- Whether a token opens a group. -/
def Token.opens (t : Token) : Bool :=
  t.is "(" || t.is "[" || t.is "\x7b"

/-- The text of the opener that a token closes. -/
def Token.closes? (t : Token) : Option String :=
  if t.is ")" then some "("
  else if t.is "]" then some "["
  else if t.is "\x7d" then some "\x7b"
  else none

/-- Whether a token closes a group. -/
def Token.closes (t : Token) : Bool :=
  t.closes?.isSome

namespace Delimiters

/-- The pairs of positions of openers and closers in a list of tokens that starts at position
`index`, where `stack` holds the openers that wait for their closer, innermost first. -/
def pairsFrom (index : Nat) (stack : List (Nat × Token)) :
    List Token → Except Located (List (Nat × Nat))
  | [] =>
    match stack with
    | [] => .ok []
    | (_, opener) :: _ => .error (Fault.at (.unclosed opener.text) opener)
  | t :: ts =>
    if t.opens then pairsFrom (index + 1) ((index, t) :: stack) ts
    else
      match t.closes? with
      | none => pairsFrom (index + 1) stack ts
      | some opening =>
        match stack with
        | [] => .error (Fault.at (.unexpected t.text) t)
        | (opened, opener) :: stack =>
          if opener.text == opening then
            match pairsFrom (index + 1) stack ts with
            | .ok pairs => .ok ((opened, index) :: pairs)
            | .error e => .error e
          else .error (Fault.at (.mismatched t.text opener.text) t)

/-- The position paired with `index`. -/
def partnerIn? (pairs : List (Nat × Nat)) (index : Nat) : Option Nat :=
  pairs.findSome? fun p =>
    if p.1 = index then some p.2 else if p.2 = index then some p.1 else none

/-- For each token the position of its partner, if it is a delimiter. -/
def partners (ts : List Token) : Except Located (List (Option Nat)) :=
  (pairsFrom 0 [] ts).map fun pairs => (List.range ts.length).map (partnerIn? pairs)

end Delimiters

/-- The tokens after a group, read from just after its opener, with `depth` groups open inside
it. -/
def afterGroup (depth : Nat) : List Token → List Token
  | [] => []
  | t :: ts =>
    if t.opens then afterGroup (depth + 1) ts
    else if t.closes then
      match depth with
      | 0 => ts
      | depth + 1 => afterGroup depth ts
    else afterGroup depth ts

/-- A list of tokens cut at its first `;` that stands in no group, with `depth` groups open at its
start: the tokens before, the `;`, and the tokens after. -/
def cutAtSemicolon? (depth : Nat) : List Token → Option (List Token × Token × List Token)
  | [] => none
  | t :: ts =>
    if depth = 0 && t.is ";" then some ([], t, ts)
    else
      let inside := if t.opens then depth + 1 else if t.closes then depth - 1 else depth
      (cutAtSemicolon? inside ts).map fun (before, semicolon, after) =>
        (t :: before, semicolon, after)

end SharpSmith.Fragment
