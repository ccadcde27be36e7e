import SharpSmith.Span

/-!
# TOML values

The values of a TOML document, and the rules by which headers and dotted keys build up its tables:
no key is set twice, a table gets its own header once and then stands after its siblings, and a
dotted key goes only through tables that dotted keys make.
-/

namespace SharpSmith.Toml

/-- How a table came about: as a step on the way to another header, by a dotted key, by a header of
its own, or in braces. -/
inductive Origin where
  | implied
  | dotted
  | header
  | inline
  deriving Repr, DecidableEq, Inhabited

/-- A value. A text comes with the stretch of the document that it is written in, quotes included.
Booleans, numbers and dates are kept as they are written. -/
inductive Value where
  | text (value : String) (span : Span)
  | bare (literal : String)
  | array (items : List Value)
  | tables (items : List Value)
  | table (origin : Origin) (entries : List (String × Value))
  deriving Repr, Inhabited

/-- The entries of a table, in order. A key comes where it was first mentioned, except that a table
with a header of its own comes where that header stands. -/
abbrev Entries := List (String × Value)

namespace Entries

/-- The value at a key. -/
def get? (key : String) (es : Entries) : Option Value :=
  (es.find? (fun e => e.1 == key)).map (·.2)

/-- The entries with another value at a key that they have. -/
def replace (key : String) (v : Value) (es : Entries) : Entries :=
  es.map fun e => if e.1 == key then (key, v) else e

/-- The entries without a key. -/
def erase (key : String) (es : Entries) : Entries :=
  es.filter fun e => e.1 != key

/-- Sets the value at a dotted key, all of whose tables are made by dotted keys. -/
def setDotted (v : Value) : List String → Entries → Option Entries
  | [], _ => none
  | [key], es => if (es.get? key).isSome then none else some (es ++ [(key, v)])
  | key :: path, es =>
    match es.get? key with
    | none => do
      let inner ← setDotted v path []
      return es ++ [(key, .table .dotted inner)]
    | some (.table .dotted inner) => do
      let inner ← setDotted v path inner
      return es.replace key (.table .dotted inner)
    | some _ => none

/-- Sets values at dotted keys, in order. -/
def setAll : List (List String × Value) → Entries → Option Entries
  | [], es => some es
  | (path, v) :: rest, es => do setAll rest (← setDotted v path es)

/-- Sets the values of a table that has a header of its own, and puts the table last. Only a table
that other headers imply may be there before. -/
def setTable (key : String) (pairs : List (List String × Value)) (es : Entries) :
    Option Entries :=
  match es.get? key with
  | none => do
    let inner ← setAll pairs []
    return es ++ [(key, .table .header inner)]
  | some (.table .implied inner) => do
    let inner ← setAll pairs inner
    return es.erase key ++ [(key, .table .header inner)]
  | some _ => none

/-- Adds a table to an array of tables. -/
def pushTable (key : String) (pairs : List (List String × Value)) (es : Entries) :
    Option Entries := do
  let item := Value.table .header (← setAll pairs [])
  match es.get? key with
  | none => return es ++ [(key, .tables [item])]
  | some (.tables items) => return es.replace key (.tables (items ++ [item]))
  | some _ => none

/-- Changes the table that the path of a header leads to. A step goes into a table that is not in
braces, or into the last table of an array of tables. -/
def changeAt (change : String → Entries → Option Entries) : List String → Entries → Option Entries
  | [], _ => none
  | [key], es => change key es
  | key :: path, es =>
    match es.get? key with
    | none => do
      let inner ← changeAt change path []
      return es ++ [(key, .table .implied inner)]
    | some (.table origin inner) =>
      if origin = .inline then none
      else do
        let inner ← changeAt change path inner
        return es.replace key (.table origin inner)
    | some (.tables items) =>
      match items.getLast? with
      | some (.table origin inner) => do
        let inner ← changeAt change path inner
        return es.replace key (.tables (items.dropLast ++ [.table origin inner]))
      | _ => none
    | some _ => none

end Entries

/-- A header: a single table or one more table of an array. -/
structure Header where
  path : List String
  repeated : Bool
  deriving Repr, DecidableEq, Inhabited

/-- A header and the values that stand under it. -/
structure Part where
  header : Header
  pairs : List (List String × Value)
  deriving Repr, Inhabited

namespace Entries

/-- Adds what stands under a header. -/
def addPart (es : Entries) (p : Part) : Option Entries :=
  changeAt (fun key => (if p.header.repeated then pushTable else setTable) key p.pairs)
    p.header.path es

/-- The table of a document that starts with the given values and goes on with parts. -/
def ofParts (pairs : List (List String × Value)) (parts : List Part) : Option Entries := do
  parts.foldlM addPart (← setAll pairs [])

end Entries

end SharpSmith.Toml
