import SharpSmith.Text.Basic
import SharpSmith.Toml.Bare
import SharpSmith.Toml.Value

/-!
# Reading TOML

A document is read from the left. What a reader leaves is the rest of the document, so a place in
the document is its size less the size of the rest there.
-/

namespace SharpSmith.Toml

/-- Space or tab. -/
def isSpace (c : Char) : Bool :=
  c == ' ' || c == '\t'

/-- A character that may not stand in a text or comment as it is: a control character other than
tab. -/
def isControl (c : Char) : Bool :=
  (c.toNat < 32 && c != '\t') || c.toNat == 127

/-- A character of a key without quotes. -/
def isBareKey (c : Char) : Bool :=
  c.isAlphanum || c == '_' || c == '-'

/-- A character of a boolean, number or date. -/
def isBareValue (c : Char) : Bool :=
  c.isAlphanum || c == '_' || c == '-' || c == '+' || c == '.' || c == ':'

/-- The rest after spaces and tabs. -/
def skipSpace (cs : List Char) : List Char :=
  cs.dropWhile isSpace

/-- The rest after the end of a line, if one is here. -/
def newline? : List Char → Option (List Char)
  | '\n' :: cs => some cs
  | '\r' :: '\n' :: cs => some cs
  | _ => none

/-- The rest after a comment without control characters, up to the end of its line. -/
def comment? (cs : List Char) : Option (List Char) :=
  let body := cs.takeWhile (· != '\n')
  let body := if body.getLast? = some '\r' && body.length < cs.length then body.dropLast else body
  if body.any isControl then none else some (cs.drop body.length)

/-- The rest after the end of a line that holds nothing more but a comment. -/
def lineEnd? (cs : List Char) : Option (List Char) :=
  match skipSpace cs with
  | [] => some []
  | '#' :: cs =>
    match comment? cs with
    | some [] => some []
    | some cs => newline? cs
    | none => none
  | cs => newline? cs

/-- The value of a hexadecimal digit. -/
def hexDigit? (c : Char) : Option Nat :=
  if '0' ≤ c && c ≤ '9' then some (c.toNat - '0'.toNat)
  else if 'a' ≤ c && c ≤ 'f' then some (c.toNat - 'a'.toNat + 10)
  else if 'A' ≤ c && c ≤ 'F' then some (c.toNat - 'A'.toNat + 10)
  else none

/-- The character with the code point that hexadecimal digits spell. -/
def hexChar? (digits : List Char) : Option Char := do
  let n ← digits.foldlM (fun n d => (hexDigit? d).map (n * 16 + ·)) 0
  if n.isValidChar then return Char.ofNat n else none

/-- The character that a letter after a backslash stands for. -/
def escape? (c : Char) : Option Char :=
  if c = 'b' then some '\x08'
  else if c = 't' then some '\t'
  else if c = 'n' then some '\n'
  else if c = 'f' then some '\x0c'
  else if c = 'r' then some '\r'
  else if c = '"' then some '"'
  else if c = '\\' then some '\\'
  else none

/-- A text and the rest after it, with a character before the text. -/
def prepend (c : Char) (r : List Char × List Char) : List Char × List Char :=
  (c :: r.1, r.2)

/-- The text up to a double quote on the same line. -/
def basicText? : List Char → Option (List Char × List Char)
  | [] => none
  | '\\' :: 'u' :: a :: b :: c :: d :: cs => do
    let x ← hexChar? [a, b, c, d]
    return prepend x (← basicText? cs)
  | '\\' :: 'U' :: a :: b :: c :: d :: e :: f :: g :: h :: cs => do
    let x ← hexChar? [a, b, c, d, e, f, g, h]
    return prepend x (← basicText? cs)
  | '\\' :: c :: cs => do
    let x ← escape? c
    return prepend x (← basicText? cs)
  | c :: cs =>
    if c = '"' then some ([], cs)
    else if isControl c || c = '\\' then none
    else (basicText? cs).map (prepend c)

/-- The text up to a single quote on the same line. -/
def literalText? : List Char → Option (List Char × List Char)
  | [] => none
  | c :: cs =>
    if c = '\'' then some ([], cs)
    else if isControl c then none
    else (literalText? cs).map (prepend c)

/-- The text up to three double quotes, of which a run may hold two more. While `skipping`, white
space and line ends are passed over, as after a backslash at the end of a line. -/
def multilineBasic? (skipping : Bool) : List Char → Option (List Char × List Char)
  | [] => none
  | '"' :: '"' :: '"' :: '"' :: '"' :: cs => some (['"', '"'], cs)
  | '"' :: '"' :: '"' :: '"' :: cs => some (['"'], cs)
  | '"' :: '"' :: '"' :: cs => some ([], cs)
  | '\\' :: 'u' :: a :: b :: c :: d :: cs => do
    let x ← hexChar? [a, b, c, d]
    return prepend x (← multilineBasic? false cs)
  | '\\' :: 'U' :: a :: b :: c :: d :: e :: f :: g :: h :: cs => do
    let x ← hexChar? [a, b, c, d, e, f, g, h]
    return prepend x (← multilineBasic? false cs)
  | '\\' :: c :: cs =>
    if (newline? (skipSpace (c :: cs))).isSome then multilineBasic? true cs
    else do
      let x ← escape? c
      return prepend x (← multilineBasic? false cs)
  | '\r' :: '\n' :: cs =>
    if skipping then multilineBasic? true cs
    else (multilineBasic? false cs).map fun r => prepend '\r' (prepend '\n' r)
  | c :: cs =>
    if skipping && (isSpace c || c = '\n') then multilineBasic? true cs
    else if (isControl c && c != '\n') || c = '\\' then none
    else (multilineBasic? false cs).map (prepend c)

/-- The text up to three single quotes, of which a run may hold two more. -/
def multilineLiteral? : List Char → Option (List Char × List Char)
  | [] => none
  | '\'' :: '\'' :: '\'' :: '\'' :: '\'' :: cs => some (['\'', '\''], cs)
  | '\'' :: '\'' :: '\'' :: '\'' :: cs => some (['\''], cs)
  | '\'' :: '\'' :: '\'' :: cs => some ([], cs)
  | '\r' :: '\n' :: cs =>
    (multilineLiteral? cs).map fun r => prepend '\r' (prepend '\n' r)
  | c :: cs =>
    if isControl c && c != '\n' then none
    else (multilineLiteral? cs).map (prepend c)

/-- The rest after a line end that stands just after the opening quotes of a text. -/
def dropNewline (cs : List Char) : List Char :=
  (newline? cs).getD cs

/-- The text that is written here in quotes of one of the four kinds. -/
def quoted? : List Char → Option (List Char × List Char)
  | '"' :: '"' :: '"' :: cs => multilineBasic? false (dropNewline cs)
  | '\'' :: '\'' :: '\'' :: cs => multilineLiteral? (dropNewline cs)
  | '"' :: cs => basicText? cs
  | '\'' :: cs => literalText? cs
  | _ => none

/-- A key without dots. -/
def simpleKey? : List Char → Option (String × List Char)
  | '"' :: cs => (basicText? cs).map fun r => (String.ofList r.1, r.2)
  | '\'' :: cs => (literalText? cs).map fun r => (String.ofList r.1, r.2)
  | cs =>
    let key := cs.takeWhile isBareKey
    if key.isEmpty then none else some (String.ofList key, cs.drop key.length)

/-- A key with its dots, and spaces around it. -/
def key? : (budget : Nat) → List Char → Option (List String × List Char)
  | 0, _ => none
  | budget + 1, cs => do
    let (key, cs) ← simpleKey? (skipSpace cs)
    match skipSpace cs with
    | '.' :: cs => do
      let (path, cs) ← key? budget cs
      return (key :: path, cs)
    | cs => return ([key], cs)

/-- The rest after spaces, line ends and comments, as they may stand between the items of an
array. -/
def skipLines? : (budget : Nat) → List Char → Option (List Char)
  | 0, cs => some cs
  | budget + 1, cs =>
    match skipSpace cs with
    | '#' :: cs => do skipLines? budget (← comment? cs)
    | cs =>
      match newline? cs with
      | some cs => skipLines? budget cs
      | none => some cs

/-- The word without quotes that is written here. A date and a time may have a space between. -/
def bareWord (cs : List Char) : List Char × List Char :=
  let word := cs.takeWhile isBareValue
  match cs.drop word.length with
  | ' ' :: d :: rest =>
    if Bare.isDate word && d.isDigit then
      let time := (d :: rest).takeWhile isBareValue
      (word ++ ' ' :: time, (d :: rest).drop time.length)
    else (word, ' ' :: d :: rest)
  | rest => (word, rest)

/-- The boolean, number, date or time that is written here. -/
def bareValue? (cs : List Char) : Option (Value × List Char) :=
  let (word, rest) := bareWord cs
  if Bare.isValue word then some (.bare (String.ofList word), rest) else none

mutual

/-- The value that is written here, in a document of `size` bytes. -/
def value? (size : Nat) : (budget : Nat) → List Char → Option (Value × List Char)
  | 0, _ => none
  | budget + 1, cs =>
    match cs with
    | '[' :: rest => do
      let (items, rest) ← items? size budget (← skipLines? budget rest)
      return (.array items, rest)
    | '\x7b' :: rest => do
      let (pairs, rest) ← inlinePairs? size budget true (skipSpace rest)
      return (.table .inline (← Entries.setAll pairs []), rest)
    | '"' :: _ | '\'' :: _ => do
      let (text, rest) ← quoted? cs
      let start := size - Text.byteLength cs
      let finish := size - Text.byteLength rest
      return (.text (String.ofList text) ⟨start, finish - start⟩, rest)
    | cs => bareValue? cs

/-- The items of an array up to its closing bracket. -/
def items? (size : Nat) : (budget : Nat) → List Char → Option (List Value × List Char)
  | 0, _ => none
  | budget + 1, cs =>
    match cs with
    | ']' :: rest => some ([], rest)
    | cs => do
      let (item, rest) ← value? size budget cs
      match ← skipLines? budget rest with
      | ',' :: rest => do
        let (items, rest) ← items? size budget (← skipLines? budget rest)
        return (item :: items, rest)
      | ']' :: rest => return ([item], rest)
      | _ => none

/-- The entries of a table in braces up to its closing brace, which may come at once at `first`. -/
def inlinePairs? (size : Nat) :
    (budget : Nat) → (first : Bool) → List Char → Option (List (List String × Value) × List Char)
  | 0, _, _ => none
  | budget + 1, first, cs =>
    match first, cs with
    | true, '\x7d' :: rest => some ([], rest)
    | _, cs => do
      let (pair, rest) ← pair? size budget cs
      match skipSpace rest with
      | ',' :: rest => do
        let (pairs, rest) ← inlinePairs? size budget false (skipSpace rest)
        return (pair :: pairs, rest)
      | '\x7d' :: rest => return ([pair], rest)
      | _ => none

/-- A key, the sign `=` and a value. -/
def pair? (size : Nat) :
    (budget : Nat) → List Char → Option ((List String × Value) × List Char)
  | 0, _ => none
  | budget + 1, cs => do
    let (path, rest) ← key? budget cs
    match rest with
    | '=' :: rest => do
      let (v, rest) ← value? size budget (skipSpace rest)
      return ((path, v), rest)
    | _ => none

end

/-- A header, from just after its first bracket. -/
def header? (budget : Nat) : List Char → Option (Header × List Char)
  | '[' :: cs => do
    let (path, cs) ← key? budget cs
    match cs with
    | ']' :: ']' :: cs => return (⟨path, true⟩, cs)
    | _ => none
  | cs => do
    let (path, cs) ← key? budget cs
    match cs with
    | ']' :: cs => return (⟨path, false⟩, cs)
    | _ => none

/-- The values before the first header, and the parts. -/
def parts? (size : Nat) :
    (budget : Nat) → List Char → Option (List (List String × Value) × List Part)
  | 0, _ => none
  | budget + 1, cs =>
    match skipSpace cs with
    | [] => some ([], [])
    | '[' :: cs => do
      let (header, cs) ← header? budget cs
      let (pairs, parts) ← parts? size budget (← lineEnd? cs)
      return ([], ⟨header, pairs⟩ :: parts)
    | cs =>
      match lineEnd? cs with
      | some cs => parts? size budget cs
      | none => do
        let (pair, cs) ← pair? size budget cs
        let (pairs, parts) ← parts? size budget (← lineEnd? cs)
        return (pair :: pairs, parts)

/-- The document without the mark of its byte order. -/
def dropMark : List Char → List Char
  | c :: cs => if c.toNat = 0xfeff then cs else c :: cs
  | [] => []

/-- Reads a document as its table. Every step of reading takes a character, so the number of
characters is enough of a budget. -/
def parse? (document : String) : Option Entries := do
  let cs := dropMark document.toList
  let (pairs, parts) ← parts? (Text.byteLength document.toList) (2 * cs.length + 4) cs
  Entries.ofParts pairs parts

end SharpSmith.Toml
