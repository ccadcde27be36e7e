import SharpSmith.Build.Method

/-!
# Building constructors

A constructor is public at first and always has a body. It may pass arguments to the constructor of
the base class: its own parameters, whichever it has in the end, or expressions.
-/

namespace SharpSmith.Build

/-- What a constructor passes to the base class. -/
inductive BaseCall where
  | forward
  | explicit (args : List Expression)
  deriving Repr, DecidableEq, Inhabited

/-- A constructor being built, with the needs of the class it belongs to. -/
structure ConstructorDraft where
  dependencies : Dependencies
  name : String
  parameters : List ParameterDraft
  attributes : List Code.Attribute
  modifiers : Modifiers
  doc : Option String
  body : List Statement
  base : Option BaseCall
  deriving Repr, Inhabited

namespace ConstructorDraft

/-- A public constructor of the class with the given name. -/
def new (dependencies : Dependencies) (name : String) : ConstructorDraft :=
  ⟨dependencies, name, [], [], .ofVisibility (some .publicAccess), none, [], none⟩

/-- The texts of the types of the parameters, which tell constructors apart. -/
def signature (c : ConstructorDraft) : List String :=
  ParameterDraft.signature c.parameters

/-- The arguments that are passed to the base class. -/
def baseArgs (c : ConstructorDraft) : Option (List Expression) :=
  c.base.map fun
    | .forward => c.parameters.map fun p => ⟨p.name⟩
    | .explicit args => args

/-- The constructor that was built. -/
def build (c : ConstructorDraft) : Code.Constructor :=
  { doc := c.doc
    attributes := c.attributes
    modifiers := c.modifiers.toList
    name := c.name
    parameters := c.parameters.map ParameterDraft.build
    baseArgs := c.baseArgs
    body := c.body }

end ConstructorDraft

/-- The calls on a constructor that is being built. Whoever makes them may `fail` with any error,
also with one that another constructor was refused with. -/
inductive ConstructorStep where
  | parameter (name : String) (type : TypeRef)
  | mapBase
  | mapBaseWith (args : List String)
  | body (lines : List String)
  | bodyWith (calls : List (Call BodyStep))
  | attributes (calls : List (Call AttributeStep))
  | modifier (modifier : Modifier)
  | doc (text : String)
  | fail (error : BuildError := .noCurrentProperty)
  | probe
  deriving Repr, Inhabited

namespace ConstructorStep

/-- Runs a call. -/
def run : ConstructorStep → ConstructorDraft → Run ConstructorDraft
  | .parameter name type, c =>
    .done { c with
      dependencies := c.dependencies.add type
      parameters := c.parameters ++ [⟨name, type⟩] }
  | .mapBase, c => .done { c with base := some .forward }
  | .mapBaseWith args, c =>
    match Expression.parseAll args with
    | .ok args => .done { c with base := some (.explicit args) }
    | .error e => .fail c (.malformed e)
  | .body lines, c => (BodyStep.addLines lines c.body).lift fun body => { c with body := body }
  | .bodyWith calls, c =>
    (Call.runAll BodyStep.run calls c.body).lift fun body => { c with body := body }
  | .attributes calls, c =>
    (AttributeStep.collect calls c.dependencies).commit
      (fun d => { c with
        dependencies := d.dependencies
        attributes := c.attributes ++ d.attributes })
      c
  | .modifier x, c => .done { c with modifiers := c.modifiers.insert x }
  | .doc text, c => .done { c with doc := some text }
  | .fail error, c => .fail c error
  | .probe, c => .noted c (.constructor c.signature c.build)

end ConstructorStep

end SharpSmith.Build
