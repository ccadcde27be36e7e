import SharpSmith.Code
import SharpSmith.Compiler

/-!
# Calls

A declaration is built by calls, each of which can fail. A call runs on a state, leaves one behind
also when it fails, and may note something down. A list of calls stops at the first failure, unless
that call is marked as caught: then the failure is noted down and the next call runs.
-/

namespace SharpSmith.Build

/-- Why a call fails. -/
inductive BuildError where
  | notAnInterface (declaration type : String)
  | invalidBase (declaration type : String)
  | baseAlreadySet (declaration existing type : String)
  | noCurrentProperty
  | duplicateConstructor (declaration signature : String)
  | emptyFile
  | malformed (error : SyntaxError)
  | compile (error : CompileError)
  deriving Repr, DecidableEq, Inhabited

/-- How a failure is shown. -/
def BuildError.diagnosis : BuildError → Diagnosis
  | .notAnInterface declaration type =>
    ⟨"'" ++ type ++ "' is not an interface", some "csgen::not_an_interface",
      some ("'" ++ declaration ++ "' can only implement or extend interface types"), []⟩
  | .invalidBase declaration type =>
    ⟨"'" ++ type ++ "' cannot be the base class of '" ++ declaration ++ "'",
      some "csgen::invalid_base",
      some ("'" ++ type ++ "' is an interface; use `implements` instead"), []⟩
  | .baseAlreadySet declaration existing type =>
    ⟨"'" ++ declaration ++ "' already extends '" ++ existing ++ "'",
      some "csgen::base_already_set",
      some ("a class or record has a single base class; '" ++ type ++ "' was rejected"), []⟩
  | .noCurrentProperty =>
    ⟨"No current property", some "csgen::no_current_property",
      some "add a property before configuring its accessors", []⟩
  | .duplicateConstructor declaration signature =>
    ⟨"'" ++ declaration ++ "' already has a constructor taking (" ++ signature ++ ")",
      some "csgen::duplicate_constructor", none, []⟩
  | .emptyFile =>
    ⟨"At least one type builder is required", some "csgen::empty_compilation_unit", none, []⟩
  | .malformed error => error.diagnosis
  | .compile error => error.diagnosis

/-- The message of a failure. -/
def BuildError.message (e : BuildError) : String :=
  e.diagnosis.message

/-- A failure, and the place in a text that asked for the call, if it is known. -/
structure Failure where
  error : BuildError
  place : Option Span
  deriving Repr, DecidableEq, Inhabited

/-- What calls can note down: a failure that was caught, or a look at what is being built. -/
inductive Note where
  | caught (error : BuildError)
  | attributes (attributes : List Code.Attribute)
  | properties (count : Nat)
  | property (name : String)
  | method (method : Code.Method)
  | constructor (signature : List String) (constructor : Code.Constructor)
  | body (statements : List Statement)
  deriving Repr, DecidableEq, Inhabited

/-- What a run leaves behind: the state, what was noted down, and how it ended. -/
structure Run (σ : Type) where
  state : σ
  log : List Note
  result : Except Failure Unit

namespace Run

variable {σ τ : Type}

/-- A run that succeeds. -/
def done (s : σ) : Run σ :=
  ⟨s, [], .ok ()⟩

/-- A run that succeeds and notes something down. -/
def noted (s : σ) (note : Note) : Run σ :=
  ⟨s, [note], .ok ()⟩

/-- A run that fails. -/
def fail (s : σ) (error : BuildError) : Run σ :=
  ⟨s, [], .error ⟨error, none⟩⟩

/-- A run with more noted down before. -/
def after (log : List Note) (r : Run σ) : Run σ :=
  { r with log := log ++ r.log }

/-- A run of a part, seen from the whole that holds the part: what was done stays done. -/
def lift (put : τ → σ) (r : Run τ) : Run σ :=
  ⟨put r.state, r.log, r.result⟩

/-- A run of a part, seen from the whole that holds the part: what was done counts only if it
succeeded, and else the whole is as `before`. -/
def commit (put : τ → σ) (before : σ) (r : Run τ) : Run σ :=
  match r.result with
  | .ok () => ⟨put r.state, r.log, .ok ()⟩
  | .error e => ⟨before, r.log, .error e⟩

/-- Whether a run succeeded. -/
def succeeded (r : Run σ) : Bool :=
  r.result.isOk

end Run

/-- A call: what it does, whether its failure is caught, and the place in a text that asks for
it. -/
structure Call (α : Type) where
  act : α
  caught : Bool
  place : Option Span
  deriving Repr, DecidableEq, Inhabited

namespace Call

variable {α σ : Type}

/-- A call whose failure is not caught. -/
def plain (act : α) : Call α :=
  ⟨act, false, none⟩

/-- A call that a place in a text asks for. -/
def placed (place : Span) (act : α) : Call α :=
  ⟨act, false, some place⟩

/-- Runs one call. A failure without a place gets the place of the call. -/
def run (step : α → σ → Run σ) (c : Call α) (s : σ) : Run σ :=
  let r := step c.act s
  match r.result with
  | .ok () => r
  | .error e => { r with result := .error ⟨e.error, e.place <|> c.place⟩ }

/-- Runs calls in order, up to the first failure that is not caught. -/
def runAll (step : α → σ → Run σ) : List (Call α) → σ → Run σ
  | [], s => .done s
  | c :: cs, s =>
    let r := c.run step s
    match r.result with
    | .ok () => (runAll step cs r.state).after r.log
    | .error e =>
      if c.caught then (runAll step cs r.state).after (r.log ++ [.caught e.error])
      else r

end Call

end SharpSmith.Build
