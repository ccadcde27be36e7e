import SharpSmith.Build.Attribute
import SharpSmith.Build.Body

/-!
# Building methods

A method of a class or record has a body unless it is abstract; a method of an interface is a
signature unless a body is asked for.
-/

namespace SharpSmith.Build

/-- A parameter being built, with its type. -/
structure ParameterDraft where
  name : String
  type : TypeRef
  deriving Repr, Inhabited

namespace ParameterDraft

/-- The parameter that was built. -/
def build (p : ParameterDraft) : Code.Parameter :=
  ⟨p.name, p.type.display⟩

/-- The texts of the types of parameters. -/
def signature (ps : List ParameterDraft) : List String :=
  ps.map fun p => p.type.display

end ParameterDraft

/-- A method being built, with the needs of the declaration it belongs to. -/
structure MethodDraft where
  dependencies : Dependencies
  name : String
  returns : Option TypeRef
  parameters : List ParameterDraft
  attributes : List Code.Attribute
  modifiers : Modifiers
  doc : Option String
  body : Option (List Statement)
  bodyNeeded : Bool
  deriving Repr, Inhabited

namespace MethodDraft

/-- A method without anything yet: public and with a body, or for an interface neither. -/
def new (dependencies : Dependencies) (name : String) (inInterface : Bool) : MethodDraft :=
  ⟨dependencies, name, none, [], [],
    .ofVisibility (if inInterface then none else some .publicAccess), none, none, !inInterface⟩

/-- The method that was built. -/
def build (m : MethodDraft) : Code.Method :=
  { doc := m.doc
    attributes := m.attributes
    modifiers := m.modifiers.toList
    returns := (m.returns.map TypeRef.display).getD "void"
    name := m.name
    parameters := m.parameters.map ParameterDraft.build
    body :=
      match m.body with
      | some body => some body
      | none => if m.bodyNeeded && !m.modifiers.contains .abstractMember then some [] else none }

end MethodDraft

/-- The calls on a method that is being built. Whoever makes them may `fail` with any error. -/
inductive MethodStep where
  | returns (type : TypeRef)
  | parameter (name : String) (type : TypeRef)
  | body (lines : List String)
  | bodyWith (calls : List (Call BodyStep))
  | attributes (calls : List (Call AttributeStep))
  | modifier (modifier : Modifier)
  | doc (text : String)
  | fail (error : BuildError := .noCurrentProperty)
  | probe
  deriving Repr, Inhabited

namespace MethodStep

/-- Runs a call. Asking for a body gives the method one, also when a line of it fails. -/
def run : MethodStep → MethodDraft → Run MethodDraft
  | .returns type, m =>
    .done { m with dependencies := m.dependencies.add type, returns := some type }
  | .parameter name type, m =>
    .done { m with
      dependencies := m.dependencies.add type
      parameters := m.parameters ++ [⟨name, type⟩] }
  | .body lines, m =>
    (BodyStep.addLines lines (m.body.getD [])).lift fun body => { m with body := some body }
  | .bodyWith calls, m =>
    (Call.runAll BodyStep.run calls (m.body.getD [])).lift fun body =>
      { m with body := some body }
  | .attributes calls, m =>
    (AttributeStep.collect calls m.dependencies).commit
      (fun d => { m with
        dependencies := d.dependencies
        attributes := m.attributes ++ d.attributes })
      m
  | .modifier x, m => .done { m with modifiers := m.modifiers.insert x }
  | .doc text, m => .done { m with doc := some text }
  | .fail error, m => .fail m error
  | .probe, m => .noted m (.method m.build)

end MethodStep

end SharpSmith.Build
