import SharpSmith.Build.Call

/-!
# Building bodies

A body is built from lines, each of which is one statement.
-/

namespace SharpSmith.Build

/-- The calls on a body that is being built. Whoever makes them may `fail` with any error. -/
inductive BodyStep where
  | line (text : String)
  | lines (texts : List String)
  | fail (error : BuildError := .noCurrentProperty)
  | probe
  deriving Repr, DecidableEq, Inhabited

namespace BodyStep

/-- Adds the statement of a line. -/
def addLine (text : String) (body : List Statement) : Run (List Statement) :=
  match Statement.parseLine text with
  | .ok s => .done (body ++ [s])
  | .error e => .fail body (.malformed e)

/-- Adds the statements of lines, up to the first that holds none. -/
def addLines (texts : List String) (body : List Statement) : Run (List Statement) :=
  Call.runAll addLine (texts.map Call.plain) body

/-- Runs a call. -/
def run : BodyStep → List Statement → Run (List Statement)
  | .line text, body => addLine text body
  | .lines texts, body => addLines texts body
  | .fail error, body => .fail body error
  | .probe, body => .noted body (.body body)

end BodyStep

end SharpSmith.Build
