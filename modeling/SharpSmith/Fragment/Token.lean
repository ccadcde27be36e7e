import SharpSmith.Span
import SharpSmith.Text.Basic

/-!
# Tokens

The tokens of C# text, and the ways in which a piece of text can fail to be the fragment it is
read as.
-/

namespace SharpSmith.Fragment

/-- The kinds of tokens. A directive is a whole line such as `#region Person`. -/
inductive TokenKind where
  | identifier
  | keyword
  | number
  | string
  | character
  | punctuator
  | directive
  deriving Repr, DecidableEq, Inhabited

/-- A token: its text, where it starts, and whether white space or a comment stands before it. -/
structure Token where
  kind : TokenKind
  text : String
  offset : Nat
  spaced : Bool
  deriving Repr, DecidableEq, Inhabited

namespace Token

/-- Whether a token is the given punctuator. -/
def is (t : Token) (text : String) : Bool :=
  t.kind == .punctuator && t.text == text

/-- Whether a token is the given reserved word. -/
def isKeyword (t : Token) (word : String) : Bool :=
  t.kind == .keyword && t.text == word

/-- Whether a token is one of the given reserved words. -/
def isKeywordIn (t : Token) (words : List String) : Bool :=
  t.kind == .keyword && words.contains t.text

/-- The stretch of text that a token covers. -/
def span (t : Token) : Span :=
  ⟨t.offset, t.text.utf8ByteSize⟩

/-- A token as its kind and text, without where it stands. -/
def bare (t : Token) : TokenKind × String :=
  (t.kind, t.text)

end Token

/-- What a piece of text is read as. -/
inductive FragmentKind where
  | statement
  | expression
  | name
  | source
  deriving Repr, DecidableEq, Inhabited

/-- The word for a kind of fragment. -/
def FragmentKind.label : FragmentKind → String
  | .statement => "statement"
  | .expression => "expression"
  | .name => "name"
  | .source => "source"

/-- Why a text is not a fragment. -/
inductive Fault where
  | unterminatedComment
  | lateDirective
  | forbiddenDirective
  | unexpectedCharacter (c : Char)
  | unterminatedString
  | unterminatedVerbatim
  | unterminatedRaw
  | badCharacter
  | mismatched (closer opener : String)
  | unexpected (text : String)
  | unclosed (opener : String)
  | missingStatement
  | missingExpression
  | missingName
  | severalStatements
  | expected (text : String)
  | expectedHandler
  | statementEnd
  | operandBefore (operator : String)
  | operandAfter (operator : String)
  | expectedIdentifier
  | expectedIdentifierAfterDot
  | unknownDirective (name : String)
  | unopened (closer opener : String)
  | neverClosed (opener : String)
  deriving Repr, DecidableEq, Inhabited

/-- The wording of a fault. -/
def Fault.reason : Fault → String
  | .unterminatedComment => "unterminated block comment"
  | .lateDirective => "preprocessor directives must start a line"
  | .forbiddenDirective => "preprocessor directives are not allowed here"
  | .unexpectedCharacter c => "unexpected character '" ++ String.singleton c ++ "'"
  | .unterminatedString => "unterminated string literal"
  | .unterminatedVerbatim => "unterminated verbatim string literal"
  | .unterminatedRaw => "unterminated raw string literal"
  | .badCharacter => "invalid character literal"
  | .mismatched closer opener => "'" ++ closer ++ "' does not close '" ++ opener ++ "'"
  | .unexpected text => "unexpected '" ++ text ++ "'"
  | .unclosed opener => "unclosed '" ++ opener ++ "'"
  | .missingStatement => "expected a statement"
  | .missingExpression => "expected an expression"
  | .missingName => "expected a name"
  | .severalStatements => "expected a single statement"
  | .expected text => "expected '" ++ text ++ "'"
  | .expectedHandler => "expected 'catch' or 'finally'"
  | .statementEnd => "unexpected ';' in expression"
  | .operandBefore operator => "expected an operand before '" ++ operator ++ "'"
  | .operandAfter operator => "expected an operand after '" ++ operator ++ "'"
  | .expectedIdentifier => "expected an identifier"
  | .expectedIdentifierAfterDot => "expected an identifier after '.'"
  | .unknownDirective name => "unknown directive '#" ++ name ++ "'"
  | .unopened closer opener => "'#" ++ closer ++ "' without '#" ++ opener ++ "'"
  | .neverClosed opener => "'#" ++ opener ++ "' is never closed"

/-- A fault and the stretch of text where it shows. -/
structure Located where
  fault : Fault
  span : Span
  deriving Repr, DecidableEq, Inhabited

/-- A fault at a token. -/
def Fault.at (fault : Fault) (t : Token) : Located :=
  ⟨fault, t.span⟩

end SharpSmith.Fragment

namespace SharpSmith

open Fragment in
/-- A text that is not the fragment it is read as. -/
structure SyntaxError where
  fragment : FragmentKind
  fault : Fault
  span : Span
  deriving Repr, DecidableEq, Inhabited

namespace SyntaxError

/-- A fault found while reading a fragment of the given kind. -/
def ofLocated (fragment : Fragment.FragmentKind) (e : Fragment.Located) : SyntaxError :=
  ⟨fragment, e.fault, e.span⟩

/-- How a malformed fragment is shown. -/
def diagnosis (e : SyntaxError) : Diagnosis where
  message := "invalid " ++ e.fragment.label ++ ": " ++ e.fault.reason
  code := some "csgen::syntax"
  help := none
  labels := [(e.span, e.fault.reason)]

end SyntaxError

end SharpSmith
