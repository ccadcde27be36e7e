/-!
# Ranges of code points

A class of characters is a table of ranges of code points in increasing order, so the first
range that does not end before a character decides whether the class holds it.
-/

namespace SharpSmith.Text

/-- Whether `c` lies in one of the ranges of `table`, which are in increasing order. -/
def inRanges (table : List (Nat × Nat)) (c : Char) : Bool :=
  match table.find? (fun r => decide (c.toNat ≤ r.2)) with
  | some r => decide (r.1 ≤ c.toNat)
  | none => false

end SharpSmith.Text
