import SharpSmith.Fragment.Token
import SharpSmith.Identifier

/-!
# Reading tokens

A text is cut from the left into lexemes. A lexeme is a token, a white space character or a
comment, and is given by its first character and the number of characters after that, so the
lexemes of a text put together are the text. Literals are kept as written and comments are
dropped.
-/

namespace SharpSmith.Fragment

/-- The punctuators, where one stands before each other that it starts with. Shifts to the right
are read as single signs, so that nested type arguments close. -/
def punctuators : List String :=
  ["??=", "<<=", "...", "=>", "==", "!=", "<=", ">=", "&&", "||", "++", "--", "+=", "-=", "*=",
   "/=", "%=", "&=", "|=", "^=", "<<", "??", "?.", "->", "::", "..", "\x7b", "\x7d", "(", ")",
   "[", "]", ";", ",", ".", ":", "?", "+", "-", "*", "/", "%", "&", "|", "^", "!", "~", "=", "<",
   ">"]

/-- What a lexeme is: white space or a comment, or a token. -/
inductive Shape where
  | blank
  | token (kind : TokenKind)
  deriving Repr, DecidableEq, Inhabited

/-- A lexeme: what it is, and how many characters it has after its first. -/
structure Lexeme where
  shape : Shape
  extra : Nat
  deriving Repr, DecidableEq, Inhabited

/-- Why no lexeme starts here, and how many characters that concerns. -/
structure Stuck where
  fault : Fault
  covered : Nat
  deriving Repr, DecidableEq, Inhabited

/-- The characters of a string up to its closing quote, which is included, and whether it has
one. -/
def stringBody : List Char → Nat × Bool
  | [] => (0, false)
  | ['\\'] => (1, false)
  | '\\' :: _ :: cs => ((stringBody cs).1 + 2, (stringBody cs).2)
  | c :: cs =>
    if c = '"' then (1, true)
    else if c = '\n' then (1, false)
    else ((stringBody cs).1 + 1, (stringBody cs).2)

/-- The characters of a verbatim string up to its closing quote, which is included, and whether it
has one. A quote in the string is written twice. -/
def verbatimBody : List Char → Nat × Bool
  | [] => (0, false)
  | '"' :: '"' :: cs => ((verbatimBody cs).1 + 2, (verbatimBody cs).2)
  | c :: cs =>
    if c = '"' then (1, true)
    else ((verbatimBody cs).1 + 1, (verbatimBody cs).2)

/-- The characters of a character literal up to its closing quote, which is included, and whether
it has one after at least one character. -/
def characterBody (filled : Bool) : List Char → Nat × Bool
  | [] => (0, false)
  | ['\\'] => (1, false)
  | '\\' :: _ :: cs => ((characterBody true cs).1 + 2, (characterBody true cs).2)
  | c :: cs =>
    if c = '\'' then (1, filled)
    else if c = '\n' then (1, false)
    else ((characterBody true cs).1 + 1, (characterBody true cs).2)

/-- How many characters a number goes on with after `previous`: letters, numerals, underscores,
the sign of an exponent, and a point before a digit. -/
def numberBody (hex : Bool) (previous : Char) : List Char → Nat
  | [] => 0
  | c :: cs =>
    let sign := (c == '+' || c == '-') && !hex && (previous == 'e' || previous == 'E')
    let point := c == '.' && cs.head?.any Char.isDigit
    if Text.continuesWord c || sign || point then numberBody hex c cs + 1 else 0

/-- The rest of a string whose opening quote stands after `lead` further characters. Three or more
quotes open a raw string, which the same number of quotes closes. -/
def stringLexeme (lead : Nat) (cs : List Char) : Except Stuck Lexeme :=
  if ['"', '"'].isPrefixOf cs then
    let more := (cs.takeWhile (· == '"')).length
    match Text.indexOf? (List.replicate (more + 1) '"') (cs.drop more) with
    | some n => .ok ⟨.token .string, lead + more + n + (more + 1)⟩
    | none => .error ⟨.unterminatedRaw, more + 1⟩
  else
    match stringBody cs with
    | (n, true) => .ok ⟨.token .string, lead + n⟩
    | (n, false) => .error ⟨.unterminatedString, lead + 1 + n⟩

/-- The rest of a verbatim string whose opening quote stands after `lead` further characters. -/
def verbatimLexeme (lead : Nat) (cs : List Char) : Except Stuck Lexeme :=
  match verbatimBody cs with
  | (n, true) => .ok ⟨.token .string, lead + n⟩
  | (n, false) => .error ⟨.unterminatedVerbatim, lead + 1 + n⟩

/-- The lexeme that starts with `@` or `$`: a string of some kind or an escaped identifier. -/
def markedLexeme (c : Char) (cs : List Char) : Except Stuck Lexeme :=
  match cs with
  | '"' :: cs => if c = '@' then verbatimLexeme 1 cs else stringLexeme 1 cs
  | d :: e :: rest =>
    if e = '"' && ((c = '$' && d = '@') || (c = '@' && d = '$')) then verbatimLexeme 2 rest
    else if c = '@' && Text.startsWord d then
      .ok ⟨.token .identifier, (cs.takeWhile Text.continuesWord).length⟩
    else .error ⟨.unexpectedCharacter c, 1⟩
  | [d] =>
    if c = '@' && Text.startsWord d then .ok ⟨.token .identifier, 1⟩
    else .error ⟨.unexpectedCharacter c, 1⟩
  | [] => .error ⟨.unexpectedCharacter c, 1⟩

/-- The identifier or reserved word that starts with `c`. -/
def wordLexeme (c : Char) (cs : List Char) : Lexeme :=
  let more := cs.takeWhile Text.continuesWord
  ⟨.token (if Identifier.isKeyword (String.ofList (c :: more)) then .keyword else .identifier),
    more.length⟩

/-- The number that starts with `c`. -/
def numberLexeme (c : Char) (cs : List Char) : Lexeme :=
  let hex := c == '0' && (cs.head? == some 'x' || cs.head? == some 'X')
  ⟨.token .number, numberBody hex c cs⟩

/-- The punctuator that starts with `c`. -/
def punctuatorLexeme (c : Char) (cs : List Char) : Except Stuck Lexeme :=
  match punctuators.find? (fun p => p.toList.isPrefixOf (c :: cs)) with
  | some p => .ok ⟨.token .punctuator, p.length - 1⟩
  | none => .error ⟨.unexpectedCharacter c, 1⟩

/-- The lexeme that starts with `c`. A directive is a whole line; it has to be the first token of
its line, and to be allowed at all. -/
def lexeme (directives lineStart : Bool) (c : Char) (cs : List Char) : Except Stuck Lexeme :=
  if Text.isBlank c then .ok ⟨.blank, 0⟩
  else if c = '/' && cs.head? == some '/' then
    .ok ⟨.blank, (cs.takeWhile (· != '\n')).length⟩
  else if c = '/' && cs.head? == some '*' then
    match Text.indexOf? ['*', '/'] cs.tail with
    | some n => .ok ⟨.blank, n + 3⟩
    | none => .error ⟨.unterminatedComment, 2⟩
  else if c = '#' then
    if !lineStart then .error ⟨.lateDirective, 1⟩
    else if !directives then .error ⟨.forbiddenDirective, 1⟩
    else .ok ⟨.token .directive, (cs.takeWhile (· != '\n')).length⟩
  else if c = '"' then stringLexeme 0 cs
  else if c = '@' || c = '$' then markedLexeme c cs
  else if c = '\'' then
    match characterBody false cs with
    | (n, true) => .ok ⟨.token .character, n⟩
    | (n, false) => .error ⟨.badCharacter, 1 + n⟩
  else if c.isDigit then .ok (numberLexeme c cs)
  else if c = '.' && cs.head?.any Char.isDigit then .ok (numberLexeme c cs)
  else if Text.startsWord c then .ok (wordLexeme c cs)
  else punctuatorLexeme c cs

/-- What reading tokens knows about the text before: whether no token stands before on the same
line, whether white space or a comment stands just before, and how many bytes stand before. -/
structure Position where
  lineStart : Bool
  spaced : Bool
  offset : Nat
  deriving Repr, DecidableEq, Inhabited

/-- The position at the start of a text. -/
def Position.start : Position :=
  ⟨true, false, 0⟩

/-- The tokens of a text, where the first `skip` characters belong to the lexeme before. -/
def tokensFrom (directives : Bool) (p : Position) :
    (skip : Nat) → List Char → Except Located (List Token)
  | _, [] => .ok []
  | skip + 1, _ :: cs => tokensFrom directives p skip cs
  | 0, c :: cs =>
    match lexeme directives p.lineStart c cs with
    | .error stuck =>
      .error ⟨stuck.fault, ⟨p.offset, Text.byteLength ((c :: cs).take stuck.covered)⟩⟩
    | .ok ⟨.blank, extra⟩ =>
      let next := p.offset + Text.byteLength (c :: cs.take extra)
      tokensFrom directives ⟨p.lineStart || c == '\n', true, next⟩ extra cs
    | .ok ⟨.token kind, extra⟩ =>
      let text := c :: cs.take extra
      let next := p.offset + Text.byteLength text
      match tokensFrom directives ⟨false, false, next⟩ extra cs with
      | .ok ts => .ok (⟨kind, String.ofList text, p.offset, p.spaced⟩ :: ts)
      | .error e => .error e

/-- The tokens of a text. -/
def tokenize (directives : Bool) (text : String) : Except Located (List Token) :=
  tokensFrom directives .start 0 text.toList

end SharpSmith.Fragment
