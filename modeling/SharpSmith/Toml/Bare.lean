/-!
# Values without quotes

Booleans, numbers, dates and times stand in a document without quotes. A manifest has no use for
what they mean, so this module only says which words are such values.
-/

namespace SharpSmith.Toml.Bare

/-- Digits, between which single underscores may stand. -/
def isRun (digit : Char → Bool) : List Char → Bool
  | [] => false
  | [c] => digit c
  | c :: '_' :: cs => digit c && isRun digit cs
  | c :: cs => digit c && isRun digit cs

/-- Decimal digits that start with a zero only if it is the number zero. -/
def isDecimal (cs : List Char) : Bool :=
  isRun Char.isDigit cs && (cs.head? != some '0' || cs.length == 1)

/-- A digit in base sixteen. -/
def isHexDigit (c : Char) : Bool :=
  c.isDigit || ('a' ≤ c && c ≤ 'f') || ('A' ≤ c && c ≤ 'F')

/-- An integer in base sixteen, eight or two. -/
def isBased : List Char → Bool
  | '0' :: 'x' :: cs => isRun isHexDigit cs
  | '0' :: 'o' :: cs => isRun (fun c => '0' ≤ c && c ≤ '7') cs
  | '0' :: 'b' :: cs => isRun (fun c => c == '0' || c == '1') cs
  | _ => false

/-- A word without its sign. -/
def unsigned : List Char → List Char
  | '+' :: cs => cs
  | '-' :: cs => cs
  | cs => cs

/-- The fraction of a number, if any, after its point. -/
def isFraction : List Char → Bool
  | [] => true
  | '.' :: cs => isRun Char.isDigit cs
  | _ => false

/-- The exponent of a number, if any, after its letter. -/
def isExponent : List Char → Bool
  | [] => true
  | _ :: cs => isRun Char.isDigit (unsigned cs)

/-- The letter before an exponent. -/
def isExponentMark (c : Char) : Bool :=
  c == 'e' || c == 'E'

/-- A decimal number with an optional fraction and an optional exponent, an infinity, or no number
at all. -/
def isFloat (cs : List Char) : Bool :=
  let cs := unsigned cs
  let mantissa := cs.takeWhile (!isExponentMark ·)
  cs == ['i', 'n', 'f'] || cs == ['n', 'a', 'n'] ||
    (isDecimal (mantissa.takeWhile (· != '.')) && isFraction (mantissa.dropWhile (· != '.')) &&
      isExponent (cs.dropWhile (!isExponentMark ·)))

/-- The number that decimal digits spell. -/
def number? (cs : List Char) : Option Nat :=
  if cs.all Char.isDigit then some (cs.foldl (fun n c => n * 10 + (c.toNat - '0'.toNat)) 0)
  else none

/-- Decimal digits that spell a number up to `most`. -/
def isUpTo (most : Nat) (cs : List Char) : Bool :=
  (number? cs).any (· ≤ most)

/-- The number of days of a month. -/
def daysIn (year month : Nat) : Nat :=
  if month = 2 then
    if year % 4 = 0 && (year % 100 != 0 || year % 400 = 0) then 29 else 28
  else if [4, 6, 9, 11].contains month then 30
  else 31

/-- A day of the calendar. -/
def isDate : List Char → Bool
  | [a, b, c, d, '-', e, f, '-', g, h] =>
    match number? [a, b, c, d], number? [e, f], number? [g, h] with
    | some year, some month, some day =>
      1 ≤ month && month ≤ 12 && 1 ≤ day && day ≤ daysIn year month
    | _, _, _ => false
  | _ => false

/-- A time of day. The second sixty is the one that is put in to keep clocks in step. -/
def isTime : List Char → Bool
  | a :: b :: ':' :: c :: d :: ':' :: e :: f :: rest =>
    isUpTo 23 [a, b] && isUpTo 59 [c, d] && isUpTo 60 [e, f] &&
      match rest with
      | [] => true
      | '.' :: cs => !cs.isEmpty && cs.all Char.isDigit
      | _ => false
  | _ => false

/-- The distance of a local time from universal time, if it is given. -/
def isOffset : List Char → Bool
  | [] => true
  | [c] => c == 'Z' || c == 'z'
  | [sign, a, b, ':', c, d] =>
    (sign == '+' || sign == '-') && isUpTo 23 [a, b] && isUpTo 59 [c, d]
  | _ => false

/-- A character of a time without its offset. -/
def isTimeChar (c : Char) : Bool :=
  c.isDigit || c == ':' || c == '.'

/-- A date and a time with a letter or a space between. -/
def isDateTime (cs : List Char) : Bool :=
  isDate (cs.take 10) &&
    match cs.drop 10 with
    | [] => false
    | sep :: cs =>
      (sep == 'T' || sep == 't' || sep == ' ') && isTime (cs.takeWhile isTimeChar) &&
        isOffset (cs.dropWhile isTimeChar)

/-- A word that is a boolean, a number, a date or a time. -/
def isValue (cs : List Char) : Bool :=
  cs == ['t', 'r', 'u', 'e'] || cs == ['f', 'a', 'l', 's', 'e'] || isBased cs || isFloat cs ||
    isDate cs || isTime cs || isDateTime cs

end SharpSmith.Toml.Bare
