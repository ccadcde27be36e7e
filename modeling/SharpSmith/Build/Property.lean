import SharpSmith.Build.Attribute

/-!
# Building properties

Properties are added one after the other, and the last one can be reopened. A property has a getter
when it is asked for or when there is no setter, and at most one setter, the last one asked for.
-/

namespace SharpSmith.Build

/-- A property being built. -/
structure PropertyDraft where
  name : String
  type : TypeRef
  modifiers : Modifiers
  getter : Bool
  setter : Option Accessor
  doc : Option String
  attributes : List Code.Attribute
  deriving Repr, Inhabited

namespace PropertyDraft

/-- A property with the given visibility and nothing else. -/
def new (name : String) (type : TypeRef) (visibility : Option Modifier) : PropertyDraft :=
  ⟨name, type, .ofVisibility visibility, false, none, none, []⟩

/-- The accessors of a property; there is always one. -/
def accessors (p : PropertyDraft) : List Accessor :=
  (if p.getter || p.setter.isNone then [.get] else []) ++ p.setter.toList

/-- The property that was built. -/
def build (p : PropertyDraft) : Code.Property :=
  ⟨p.doc, p.attributes, p.modifiers.toList, p.type.display, p.name, p.accessors⟩

/-- Asks for an accessor. -/
def access (p : PropertyDraft) (a : Accessor) : PropertyDraft :=
  if a.isSetter then { p with setter := some a } else { p with getter := true }

end PropertyDraft

/-- A property that is open, with the needs of the declaration it belongs to. -/
structure OpenProperty where
  dependencies : Dependencies
  property : PropertyDraft
  deriving Repr, Inhabited

/-- The calls on a property that is open. -/
inductive HandleStep where
  | accessor (accessor : Accessor)
  | modifier (modifier : Modifier)
  | doc (text : String)
  | attributes (calls : List (Call AttributeStep))
  | probe
  deriving Repr, Inhabited

namespace HandleStep

/-- Runs a call. -/
def run : HandleStep → OpenProperty → Run OpenProperty
  | .accessor a, h => .done { h with property := h.property.access a }
  | .modifier m, h =>
    .done { h with property := { h.property with modifiers := h.property.modifiers.insert m } }
  | .doc text, h => .done { h with property := { h.property with doc := some text } }
  | .attributes calls, h =>
    (AttributeStep.collect calls h.dependencies).commit
      (fun d =>
        ⟨d.dependencies, { h.property with attributes := h.property.attributes ++ d.attributes }⟩)
      h
  | .probe, h => .noted h (.property h.property.name)

end HandleStep

/-- Properties being added, with the needs of the declaration they belong to and the visibility
that they start with. -/
structure PropertiesDraft where
  dependencies : Dependencies
  visibility : Option Modifier
  properties : List PropertyDraft
  deriving Repr, Inhabited

/-- The calls that add properties. Whoever makes them may `fail` with any error. -/
inductive PropertyStep where
  | add (name : String) (type : TypeRef) (calls : List (Call HandleStep))
  | addPrivate (name : String) (type : TypeRef) (calls : List (Call HandleStep))
  | current (calls : List (Call HandleStep))
  | fail (error : BuildError := .noCurrentProperty)
  | probe
  deriving Repr, Inhabited

namespace PropertiesDraft

/-- The properties before the last one, which is open, with what became of it. -/
def close (d : PropertiesDraft) (others : List PropertyDraft) (h : OpenProperty) :
    PropertiesDraft :=
  { d with dependencies := h.dependencies, properties := others ++ [h.property] }

/-- Adds a property and runs calls on it. -/
def push (d : PropertiesDraft) (name : String) (type : TypeRef) (visibility : Option Modifier)
    (calls : List (Call HandleStep)) : Run PropertiesDraft :=
  (Call.runAll HandleStep.run calls ⟨d.dependencies.add type, .new name type visibility⟩).lift
    (d.close d.properties)

/-- The properties that were added. -/
def build (d : PropertiesDraft) : List Code.Property :=
  d.properties.map PropertyDraft.build

end PropertiesDraft

namespace PropertyStep

/-- Runs a call. -/
def run : PropertyStep → PropertiesDraft → Run PropertiesDraft
  | .add name type calls, d => d.push name type d.visibility calls
  | .addPrivate name type calls, d => d.push name type (some .privateAccess) calls
  | .current calls, d =>
    match d.properties.getLast? with
    | some p =>
      (Call.runAll HandleStep.run calls ⟨d.dependencies, p⟩).lift (d.close d.properties.dropLast)
    | none => .fail d .noCurrentProperty
  | .fail error, d => .fail d error
  | .probe, d => .noted d (.properties d.properties.length)

end PropertyStep

end SharpSmith.Build
