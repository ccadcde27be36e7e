import SharpSmith.Build.Call
import SharpSmith.Identifier

/-!
# Building attributes

Each attribute is applied under its short name, and its type is recorded with the needs of the
declaration around it.
-/

namespace SharpSmith.Build

/-- Attributes being collected, with the needs of the declaration they belong to. -/
structure AttributesDraft where
  dependencies : Dependencies
  attributes : List Code.Attribute
  deriving Repr, DecidableEq, Inhabited

/-- The calls on attributes that are being collected. Whoever makes them may `fail` with any
error. -/
inductive AttributeStep where
  | add (type : TypeRef) (args : List String)
  | addBare (type : TypeRef)
  | fail (error : BuildError := .noCurrentProperty)
  | probe
  deriving Repr, Inhabited

namespace AttributesDraft

/-- Applies an attribute to arguments that have been read. -/
def push (d : AttributesDraft) (type : TypeRef) (args : List Expression) : AttributesDraft :=
  ⟨d.dependencies.add type, d.attributes ++ [⟨Identifier.attributeName type.name, args⟩]⟩

end AttributesDraft

namespace AttributeStep

/-- Runs a call. All arguments are read before the attribute is applied. -/
def run : AttributeStep → AttributesDraft → Run AttributesDraft
  | .add type args, d =>
    match Expression.parseAll args with
    | .ok args => .done (d.push type args)
    | .error e => .fail d (.malformed e)
  | .addBare type, d => .done (d.push type [])
  | .fail error, d => .fail d error
  | .probe, d => .noted d (.attributes d.attributes)

/-- Collects attributes for something with the given needs. -/
def collect (calls : List (Call AttributeStep)) (dependencies : Dependencies) :
    Run AttributesDraft :=
  Call.runAll run calls ⟨dependencies, []⟩

end AttributeStep

end SharpSmith.Build
