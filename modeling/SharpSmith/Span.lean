/-!
# Places in a text
-/

namespace SharpSmith

/-- A stretch of a text: where it starts and how long it is, in UTF-8 bytes. -/
structure Span where
  offset : Nat
  length : Nat
  deriving Repr, DecidableEq, Inhabited

namespace Span

/-- The offset just after a stretch. -/
def finish (s : Span) : Nat :=
  s.offset + s.length

/-- A stretch of the text that starts `by` bytes into another. -/
def shift (start : Nat) (s : Span) : Span :=
  ⟨start + s.offset, s.length⟩

end Span

/-- How an error is shown: its message, its code, a hint, and labelled places in the text it is
about. -/
structure Diagnosis where
  message : String
  code : Option String
  help : Option String
  labels : List (Span × String)
  deriving Repr, DecidableEq, Inhabited

end SharpSmith
