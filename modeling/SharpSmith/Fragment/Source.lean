import SharpSmith.Fragment.Delimiters
import SharpSmith.Fragment.Lexeme

/-!
# Source files

A source file holds tokens whose delimiters are balanced and directives that are known and nested.
Regions and conditions nest on their own.
-/

namespace SharpSmith.Source

open Fragment

/-- The directives that may stand in a source file. -/
def directives : List String :=
  ["region", "endregion", "if", "elif", "else", "endif", "define", "undef", "nullable", "pragma",
   "line", "error", "warning"]

/-- The name of a directive: what stands after its signs and white space, up to white space. -/
def directiveName (text : String) : String :=
  let cs := Text.trimStart ((Text.trimStart text.toList).dropWhile (· == '#'))
  String.ofList (cs.takeWhile fun c => !Text.isBlank c)

/-- The regions and conditions that are open, innermost first. -/
structure Nesting where
  regions : List Token
  conditions : List Token
  deriving Repr, DecidableEq, Inhabited

namespace Nesting

/-- The nesting after the directive `t`, which has the given name. -/
def step (n : Nesting) (t : Token) (name : String) : Except Located Nesting :=
  if !directives.contains name then .error (Fault.at (.unknownDirective name) t)
  else if name == "region" then .ok { n with regions := t :: n.regions }
  else if name == "endregion" then
    match n.regions with
    | [] => .error (Fault.at (.unopened "endregion" "region") t)
    | _ :: regions => .ok { n with regions := regions }
  else if name == "if" then .ok { n with conditions := t :: n.conditions }
  else if name == "elif" || name == "else" then
    if n.conditions.isEmpty then .error (Fault.at (.unopened name "if") t) else .ok n
  else if name == "endif" then
    match n.conditions with
    | [] => .error (Fault.at (.unopened "endif" "if") t)
    | _ :: conditions => .ok { n with conditions := conditions }
  else .ok n

/-- The nesting after the directives among some tokens. -/
def run (n : Nesting) : List Token → Except Located Nesting
  | [] => .ok n
  | t :: ts =>
    if t.kind == .directive then
      match n.step t (directiveName t.text) with
      | .ok n => run n ts
      | .error e => .error e
    else run n ts

/-- The fault of a nesting that is left open at the end. -/
def fault? (n : Nesting) : Option Located :=
  match n.regions, n.conditions with
  | t :: _, _ => some (Fault.at (.neverClosed "region") t)
  | [], t :: _ => some (Fault.at (.neverClosed "if") t)
  | [], [] => none

end Nesting

/-- Checks the tokens of a source file. -/
def check (text : String) : Except Located Unit := do
  let ts ← tokenize true text
  let _ ← Delimiters.partners ts
  let nesting ← Nesting.run ⟨[], []⟩ ts
  match nesting.fault? with
  | some e => throw e
  | none => return ()

/-- Checks a whole source file. -/
def verify (text : String) : Except SyntaxError Unit :=
  match check text with
  | .error e => .error (.ofLocated .source e)
  | .ok () => .ok ()

end SharpSmith.Source
