import SharpSmith.Text.Alphabetic
import SharpSmith.Text.Blank
import SharpSmith.Text.Numeric

/-!
# Text

Measures, cuts and searches on text. Offsets and lengths are counts of UTF-8 bytes; everything
that looks at single characters works on lists of characters.
-/

namespace SharpSmith.Text

/-- A letter or a numeral. -/
def isAlphanumeric (c : Char) : Bool :=
  isAlphabetic c || isNumeric c

/-- A character that an identifier may start with: a letter or an underscore. -/
def startsWord (c : Char) : Bool :=
  isAlphabetic c || c == '_'

/-- A character that an identifier may go on with: a letter, a numeral or an underscore. -/
def continuesWord (c : Char) : Bool :=
  isAlphanumeric c || c == '_'

/-- The number of UTF-8 bytes of a list of characters. -/
def byteLength : List Char → Nat
  | [] => 0
  | c :: cs => c.utf8Size + byteLength cs

/-- The number of characters before the first occurrence of `pattern`. -/
def indexOf? (pattern : List Char) : List Char → Option Nat
  | [] => if pattern.isEmpty then some 0 else none
  | c :: cs =>
    if pattern.isPrefixOf (c :: cs) then some 0
    else (indexOf? pattern cs).map (· + 1)

/-- The characters of `cs` after its first `n` bytes; none when these end inside a character
or after the end. -/
def dropBytes? : Nat → List Char → Option (List Char)
  | 0, cs => some cs
  | _ + 1, [] => none
  | n + 1, c :: cs => if c.utf8Size ≤ n + 1 then dropBytes? (n + 1 - c.utf8Size) cs else none

/-- The first `n` bytes of `cs`; none when these end inside a character or after the end. -/
def takeBytes? : Nat → List Char → Option (List Char)
  | 0, _ => some []
  | _ + 1, [] => none
  | n + 1, c :: cs =>
    if c.utf8Size ≤ n + 1 then (takeBytes? (n + 1 - c.utf8Size) cs).map (c :: ·) else none

/-- The text without the white space it starts with. -/
def trimStart (cs : List Char) : List Char :=
  cs.dropWhile isBlank

/-- The text without the white space it ends with. -/
def trimEnd (cs : List Char) : List Char :=
  (cs.reverse.dropWhile isBlank).reverse

/-- The text without white space at its ends. -/
def trim (cs : List Char) : List Char :=
  trimEnd (trimStart cs)

/-- The parts of a text between the characters `separator`; a text without one is its own only
part. -/
def fields (separator : Char) : List Char → List (List Char)
  | [] => [[]]
  | c :: cs =>
    if c = separator then [] :: fields separator cs
    else
      match fields separator cs with
      | [] => [[c]]
      | f :: fs => (c :: f) :: fs

/-- The lines of a text, where `current` holds the line read so far, last character first. A line
ends at a line feed, and a carriage return just before that belongs to the line's end. A last line
without one counts when it is not empty. -/
def linesFrom (current : List Char) : List Char → List (List Char)
  | [] => if current.isEmpty then [] else [current.reverse]
  | c :: cs =>
    if c = '\n' then
      (if current.head? = some '\r' then current.tail.reverse else current.reverse) ::
        linesFrom [] cs
    else linesFrom (c :: current) cs

/-- The lines of a text, without their ends. -/
def lines (cs : List Char) : List (List Char) :=
  linesFrom [] cs

/-- The texts in order, with `separator` between each two. -/
def join (separator : String) : List String → String
  | [] => ""
  | [s] => s
  | s :: ss => s ++ separator ++ join separator ss

/-- `x` put at the end of a list that does not hold it yet. -/
def insertNew (x : String) (xs : List String) : List String :=
  if xs.contains x then xs else xs ++ [x]

end SharpSmith.Text
