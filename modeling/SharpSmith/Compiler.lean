import SharpSmith.Dependencies
import SharpSmith.Span

/-!
# Compiling

What is handed to a compiler, and what it can answer: the assemblies that a source file refers to,
and the messages that make a compilation fail.
-/

namespace SharpSmith

/-- Assemblies to refer to, each once, in order. -/
structure References where
  toList : List String
  deriving Repr, DecidableEq, Inhabited

namespace References

/-- Adds assemblies that are not there yet. -/
def extend (r : References) (names : List String) : References :=
  ⟨names.foldl (fun xs x => Text.insertNew x xs) r.toList⟩

/-- The assemblies of a list, each once. -/
def ofList (names : List String) : References :=
  extend ⟨[]⟩ names

/-- Whether an assembly is among those referred to. -/
def contains (r : References) (name : String) : Bool :=
  r.toList.contains name

/-- Adds one assembly. -/
def insert (r : References) (name : String) : References :=
  ⟨Text.insertNew name r.toList⟩

/-- The assemblies that every compilation refers to. -/
def runtime : References :=
  ofList ["System.Runtime", "System.Console", "System.Private.CoreLib"]

end References

/-- How grave a message of a compiler is. -/
inductive Severity where
  | hidden
  | info
  | warning
  | error
  deriving Repr, DecidableEq, Inhabited

namespace Severity

/-- All severities. -/
def all : List Severity :=
  [.hidden, .info, .warning, .error]

/-- The word for a severity. -/
def label : Severity → String
  | .hidden => "hidden"
  | .info => "info"
  | .warning => "warning"
  | .error => "error"

/-- The severity with the given word. -/
def ofLabel? (word : String) : Option Severity :=
  all.find? (fun s => s.label == word)

end Severity

/-- A message of a compiler. -/
structure CompilerMessage where
  id : String
  severity : Severity
  message : String
  warningAsError : Bool
  deriving Repr, DecidableEq, Inhabited

namespace CompilerMessage

/-- Whether a message makes the compilation fail. -/
def isFailure (m : CompilerMessage) : Bool :=
  m.severity == .error || m.warningAsError

/-- The text of a message. -/
def text (m : CompilerMessage) : String :=
  m.id ++ ": " ++ m.message

end CompilerMessage

/-- Why compiled code cannot be used. -/
inductive CompileError where
  | failed (messages : List CompilerMessage)
  | typeNotFound (type : String)
  | instantiation (type message : String)
  deriving Repr, DecidableEq, Inhabited

namespace CompileError

/-- The failure that some messages amount to, if any of them is one. -/
def ofMessages? (messages : List CompilerMessage) : Option CompileError :=
  let failures := messages.filter CompilerMessage.isFailure
  if failures.isEmpty then none else some (.failed failures)

/-- The wording of a failure. -/
def message : CompileError → String
  | .failed messages =>
    "Compilation failed: " ++ Text.join "\n" (messages.map CompilerMessage.text)
  | .typeNotFound type => "Type " ++ type ++ " not found in assembly."
  | .instantiation type message =>
    "could not create an instance of '" ++ type ++ "': " ++ message

/-- The code of a failure. -/
def code : CompileError → String
  | .failed _ => "csgen::compile::failed"
  | .typeNotFound _ => "csgen::compile::type_not_found"
  | .instantiation _ _ => "csgen::compile::instantiation"

/-- How a failure is shown. -/
def diagnosis (e : CompileError) : Diagnosis :=
  ⟨e.message, some e.code, none, []⟩

end CompileError

/-- A compiler makes something of a source text and the assemblies it refers to. -/
structure Compiler (α : Type) where
  compile : String → References → Except CompileError α

end SharpSmith
