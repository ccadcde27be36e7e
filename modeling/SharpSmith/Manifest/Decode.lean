import SharpSmith.Manifest.Definition
import SharpSmith.Toml.Reader

/-!
# Reading manifests

The tables of a TOML document become the parts of a manifest. A part is a table with known keys, or
an array that lists its fields in order; everything else is refused.
-/

namespace SharpSmith.Manifest.Decode

open Toml

/-- The fields of a part: by key, or listed in order. -/
inductive Fields where
  | keyed (entries : Entries)
  | listed (items : List Value)

/-- Reads a value. -/
abbrev Reader (α : Type) := Value → Option α

/-- A field of a part: its key and its position. -/
structure Field where
  key : String
  index : Nat

namespace Fields

/-- The fields of a value, all of whose keys are among `known`. -/
def ofValue? (known : List String) : Value → Option Fields
  | .table _ entries =>
    if entries.all (fun e => known.contains e.1) then some (.keyed entries) else none
  | .array items => some (.listed items)
  | .tables items => some (.listed items)
  | _ => none

/-- The value of a field. -/
def get? (fs : Fields) (f : Field) : Option Value :=
  match fs with
  | .keyed entries => entries.get? f.key
  | .listed items => items[f.index]?

/-- A field that has to be there. -/
def required {α : Type} (fs : Fields) (f : Field) (read : Reader α) : Option α :=
  (fs.get? f).bind read

/-- A field that may be missing from a table, but not from a list. -/
def optional {α : Type} (fs : Fields) (f : Field) (read : Reader α) : Option (Option α) :=
  match fs.get? f with
  | some v => (read v).map some
  | none =>
    match fs with
    | .keyed _ => some none
    | .listed _ => none

/-- A field that stands for `fallback` when it is missing. -/
def defaulted {α : Type} (fs : Fields) (f : Field) (read : Reader α) (fallback : α) : Option α :=
  match fs.get? f with
  | some v => read v
  | none => some fallback

end Fields

/-- Reads a text without its place. -/
def text : Reader String
  | .text value _ => some value
  | _ => none

/-- Reads a text with its place. -/
def quoted : Reader Quoted
  | .text value span => some ⟨value, span⟩
  | _ => none

/-- Reads an array of values. -/
def list {α : Type} (read : Reader α) : Reader (List α)
  | .array items => items.mapM read
  | .tables items => items.mapM read
  | _ => none

/-- Reads a choice: a word, or a table that has the word as its only key and holds nothing. -/
def choice {α : Type} (ofWord? : String → Option α) : Reader α
  | .text word _ => ofWord? word
  | .table _ [(word, .table _ [])] => ofWord? word
  | .table _ [(word, .array [])] => ofWord? word
  | _ => none

/-- Reads an attribute. -/
def attributeEntry : Reader AttributeEntry := fun v => do
  let fs ← Fields.ofValue? ["type", "args"] v
  return ⟨← fs.required ⟨"type", 0⟩ quoted, ← fs.defaulted ⟨"args", 1⟩ (list quoted) []⟩

/-- Reads a parameter. -/
def parameter : Reader ParameterEntry := fun v => do
  let fs ← Fields.ofValue? ["name", "type"] v
  return ⟨← fs.required ⟨"name", 0⟩ quoted, ← fs.required ⟨"type", 1⟩ quoted⟩

/-- Reads a property. -/
def property : Reader PropertyEntry := fun v => do
  let fs ← Fields.ofValue? ["name", "type", "access", "accessors", "doc", "attributes"] v
  return {
    name := ← fs.required ⟨"name", 0⟩ quoted
    type := ← fs.required ⟨"type", 1⟩ quoted
    access := ← fs.optional ⟨"access", 2⟩ quoted
    accessors := ← fs.optional ⟨"accessors", 3⟩ (list quoted)
    doc := ← fs.optional ⟨"doc", 4⟩ text
    attributes := ← fs.defaulted ⟨"attributes", 5⟩ (list attributeEntry) [] }

/-- Reads what a constructor passes to the base class. -/
def base : Reader BaseEntry
  | .text word _ => some (.keyword word)
  | v => (list text v).map .args

/-- Reads a constructor. -/
def constructor : Reader ConstructorEntry := fun v => do
  let fs ← Fields.ofValue? ["parameters", "access", "base", "body", "doc", "attributes"] v
  return {
    parameters := ← fs.defaulted ⟨"parameters", 0⟩ (list parameter) []
    access := ← fs.optional ⟨"access", 1⟩ quoted
    base := ← fs.optional ⟨"base", 2⟩ base
    body := ← fs.defaulted ⟨"body", 3⟩ (list quoted) []
    doc := ← fs.optional ⟨"doc", 4⟩ text
    attributes := ← fs.defaulted ⟨"attributes", 5⟩ (list attributeEntry) [] }

/-- Reads a method. -/
def method : Reader MethodEntry := fun v => do
  let fs ← Fields.ofValue?
    ["name", "returns", "parameters", "modifiers", "body", "doc", "attributes"] v
  return {
    name := ← fs.required ⟨"name", 0⟩ quoted
    returns := ← fs.optional ⟨"returns", 1⟩ quoted
    parameters := ← fs.defaulted ⟨"parameters", 2⟩ (list parameter) []
    modifiers := ← fs.defaulted ⟨"modifiers", 3⟩ (list quoted) []
    body := ← fs.optional ⟨"body", 4⟩ (list quoted)
    doc := ← fs.optional ⟨"doc", 5⟩ text
    attributes := ← fs.defaulted ⟨"attributes", 6⟩ (list attributeEntry) [] }

/-- Reads a class. -/
def classEntry : Reader ClassEntry := fun v => do
  let fs ← Fields.ofValue?
    ["name", "doc", "modifiers", "extends", "implements", "attributes", "properties",
     "constructors", "methods"] v
  return {
    name := ← fs.required ⟨"name", 0⟩ quoted
    doc := ← fs.optional ⟨"doc", 1⟩ text
    modifiers := ← fs.defaulted ⟨"modifiers", 2⟩ (list quoted) []
    base := ← fs.optional ⟨"extends", 3⟩ quoted
    interfaces := ← fs.defaulted ⟨"implements", 4⟩ (list quoted) []
    attributes := ← fs.defaulted ⟨"attributes", 5⟩ (list attributeEntry) []
    properties := ← fs.defaulted ⟨"properties", 6⟩ (list property) []
    constructors := ← fs.defaulted ⟨"constructors", 7⟩ (list constructor) []
    methods := ← fs.defaulted ⟨"methods", 8⟩ (list method) [] }

/-- Reads an interface. -/
def interfaceEntry : Reader InterfaceEntry := fun v => do
  let fs ← Fields.ofValue?
    ["name", "doc", "modifiers", "extends", "attributes", "properties", "methods"] v
  return {
    name := ← fs.required ⟨"name", 0⟩ quoted
    doc := ← fs.optional ⟨"doc", 1⟩ text
    modifiers := ← fs.defaulted ⟨"modifiers", 2⟩ (list quoted) []
    bases := ← fs.defaulted ⟨"extends", 3⟩ (list quoted) []
    attributes := ← fs.defaulted ⟨"attributes", 4⟩ (list attributeEntry) []
    properties := ← fs.defaulted ⟨"properties", 5⟩ (list property) []
    methods := ← fs.defaulted ⟨"methods", 6⟩ (list method) [] }

/-- Reads a record. -/
def recordEntry : Reader RecordEntry := fun v => do
  let fs ← Fields.ofValue?
    ["name", "doc", "modifiers", "parameters", "extends", "implements", "attributes",
     "properties", "methods"] v
  return {
    name := ← fs.required ⟨"name", 0⟩ quoted
    doc := ← fs.optional ⟨"doc", 1⟩ text
    modifiers := ← fs.defaulted ⟨"modifiers", 2⟩ (list quoted) []
    parameters := ← fs.defaulted ⟨"parameters", 3⟩ (list parameter) []
    base := ← fs.optional ⟨"extends", 4⟩ quoted
    interfaces := ← fs.defaulted ⟨"implements", 5⟩ (list quoted) []
    attributes := ← fs.defaulted ⟨"attributes", 6⟩ (list attributeEntry) []
    properties := ← fs.defaulted ⟨"properties", 7⟩ (list property) []
    methods := ← fs.defaulted ⟨"methods", 8⟩ (list method) [] }

/-- Reads a type that is declared elsewhere. -/
def externalType : Reader ExternalType := fun v => do
  let fs ← Fields.ofValue? ["namespace", "kind", "assembly"] v
  return {
    space := ← fs.optional ⟨"namespace", 0⟩ text
    kind := ← fs.defaulted ⟨"kind", 1⟩ (choice TypeKind.ofTag?) .classType
    assembly := ← fs.optional ⟨"assembly", 2⟩ text }

/-- Reads the types that are declared elsewhere. -/
def externalTypes : Reader ExternalTypes
  | .table _ entries => do
    ExternalTypes.ofList? (← entries.mapM fun e => do return (e.1, ← externalType e.2))
  | _ => none

/-- The way of writing a namespace that a word stands for. -/
def style? (word : String) : Option NamespaceStyle :=
  if word == "file" then some .file
  else if word == "block" then some .block
  else none

/-- Reads the table of a document. -/
def manifest (document : Document) (entries : Entries) : Option Manifest := do
  let fs ← Fields.ofValue? ["namespace", "style", "types", "class", "interface", "record"]
    (.table .header entries)
  return {
    space := ← fs.defaulted ⟨"namespace", 0⟩ text ""
    style := ← fs.defaulted ⟨"style", 1⟩ (choice style?) .file
    types := ← fs.defaulted ⟨"types", 2⟩ externalTypes .empty
    classes := ← fs.defaulted ⟨"class", 3⟩ (list classEntry) []
    interfaces := ← fs.defaulted ⟨"interface", 4⟩ (list interfaceEntry) []
    records := ← fs.defaulted ⟨"record", 5⟩ (list recordEntry) []
    document := document }

end SharpSmith.Manifest.Decode

namespace SharpSmith

/-- Reads a document as a manifest. -/
def Manifest.decode? (document : Document) : Option Manifest :=
  (Toml.parse? document.text).bind (Manifest.Decode.manifest document)

end SharpSmith
