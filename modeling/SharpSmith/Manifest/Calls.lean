import SharpSmith.Build.Project
import SharpSmith.Manifest.Validity
import SharpSmith.Manifest.Vocabulary

/-!
# From manifests to source files

Each declaration of a manifest is built by calls, which carry the places of the texts that ask for
them. Types are resolved before the call that uses them runs, and the first error counts.
-/

namespace SharpSmith.Manifest

open Build

/-- What is needed to find the calls of a manifest: its document and the types it can name. -/
structure Scope where
  document : Document
  types : Vocabulary
  deriving Repr

namespace Scope

/-- The scope of a manifest. -/
def ofManifest (m : Manifest) : Scope :=
  ⟨m.document, .ofManifest m⟩

/-- The place of a text for a label. -/
def placeOf (s : Scope) (q : Quoted) : Span :=
  s.document.valueSpan q.span

/-- A call that a text asks for. -/
def call {α : Type} (s : Scope) (q : Quoted) (act : α) : Call α :=
  .placed (s.placeOf q) act

/-- The type that a text means. An error points at the part of the text that is at fault. -/
def resolve (s : Scope) (q : Quoted) : Except ManifestError TypeRef :=
  let start := (s.placeOf q).offset
  match WrittenType.parse q.value with
  | .error e => .error (.invalid (.badType q.value e.fault) (some (e.span.shift start)))
  | .ok e =>
    match s.types.resolve e with
    | .error unknown => .error (.unknownType unknown.name (unknown.span.shift start))
    | .ok type => .ok type

/-- An error in a value. -/
def problem (s : Scope) (p : ManifestProblem) (q : Quoted) : ManifestError :=
  .invalid p (some (s.placeOf q))

/-- The modifier that a word means. -/
def modifier (s : Scope) (q : Quoted) : Except ManifestError Modifier :=
  match Modifier.ofKeyword? q.value with
  | some m => .ok m
  | none => .error (s.problem (.unknownModifier q.value) q)

/-- The visibility that a word means. -/
def visibility (s : Scope) (q : Quoted) : Except ManifestError Modifier :=
  match (Modifier.ofKeyword? q.value).filter Modifier.isVisibility with
  | some m => .ok m
  | none => .error (s.problem (.notAccess q.value) q)

/-- The accessor that a text means, white space at its ends apart. -/
def accessor (s : Scope) (q : Quoted) : Except ManifestError Accessor :=
  match Accessor.ofText? (String.ofList (Text.trim q.value.toList)) with
  | some a => .ok a
  | none => .error (s.problem (.unknownAccessor q.value) q)

/-- The call that applies an attribute. -/
def attributeCall (s : Scope) (d : AttributeEntry) : Except ManifestError (Call AttributeStep) := do
  let type ← s.resolve d.type
  return s.call d.type
    (if d.args.isEmpty then .addBare type else .add type (d.args.map Quoted.value))

/-- The calls that apply attributes. -/
def attributeCalls (s : Scope) (ds : List AttributeEntry) :
    Except ManifestError (List (Call AttributeStep)) :=
  ds.mapM s.attributeCall

/-- The parameters of a list, with their types. -/
def parameters (s : Scope) (ds : List ParameterEntry) :
    Except ManifestError (List (String × TypeRef)) :=
  ds.mapM fun d => do return (d.name.value, ← s.resolve d.type)

/-- The calls that write the lines of a body. -/
def lineCalls (s : Scope) (lines : List Quoted) : List (Call BodyStep) :=
  lines.map fun l => s.call l (.line l.value)

/-- The accessors of a property: those asked for, or a getter and, outside of interfaces, a
setter. -/
def accessors (s : Scope) (inInterface : Bool) :
    Option (List Quoted) → Except ManifestError (List Accessor)
  | some qs => qs.mapM s.accessor
  | none => .ok (if inInterface then [.get] else [.get, .set])

/-- The call that adds a property. -/
def propertyCall (s : Scope) (inInterface : Bool) (d : PropertyEntry) :
    Except ManifestError (Call PropertyStep) := do
  let access ← d.access.mapM s.visibility
  let accessors ← s.accessors inInterface d.accessors
  let type ← s.resolve d.type
  let attributes ← s.attributeCalls d.attributes
  let details : List (Call HandleStep) :=
    accessors.map (fun a => .plain (.accessor a)) ++
      d.doc.toList.map (fun text => .plain (.doc text)) ++ [.plain (.attributes attributes)]
  return s.call d.name
    (match access with
     | some .privateAccess => .addPrivate d.name.value type details
     | some m => .add d.name.value type (.plain (.modifier m) :: details)
     | none => .add d.name.value type details)

/-- The call to the base class that a constructor asks for. -/
def baseCall (owner : Quoted) : Option BaseEntry → Except ManifestError (List ConstructorStep)
  | none => .ok []
  | some (.args args) => .ok [.mapBaseWith args]
  | some (.keyword word) =>
    if word == "forward" then .ok [.mapBase]
    else .error (.invalid (.badBaseCall word owner.value) none)

/-- The call that adds a constructor to the class called `owner`. -/
def constructorCall (s : Scope) (owner : Quoted) (d : ConstructorEntry) :
    Except ManifestError (Call (DeclarationStep .classDecl)) := do
  let parameters ← s.parameters d.parameters
  let access ← d.access.mapM s.visibility
  let attributes ← s.attributeCalls d.attributes
  let base ← baseCall owner d.base
  return s.call owner (.constructor
    (parameters.map (fun p => .plain (.parameter p.1 p.2)) ++
      access.toList.map (fun m => .plain (.modifier m)) ++
      d.doc.toList.map (fun text => .plain (.doc text)) ++
      base.map Call.plain ++
      [.plain (.attributes attributes), .plain (.bodyWith (s.lineCalls d.body))]))

/-- The call that adds a method. -/
def methodCall {kind : DeclarationKind} (s : Scope) (d : MethodEntry) :
    Except ManifestError (Call (DeclarationStep kind)) := do
  let returns ← d.returns.mapM s.resolve
  let parameters ← s.parameters d.parameters
  let modifiers ← d.modifiers.mapM s.modifier
  let attributes ← s.attributeCalls d.attributes
  return s.call d.name (.method d.name.value
    (returns.toList.map (fun t => .plain (.returns t)) ++
      parameters.map (fun p => .plain (.parameter p.1 p.2)) ++
      modifiers.map (fun m => .plain (.modifier m)) ++
      d.doc.toList.map (fun text => .plain (.doc text)) ++
      [.plain (.attributes attributes)] ++
      d.body.toList.map (fun lines => .plain (.bodyWith (s.lineCalls lines)))))

end Scope

/-- The calls that build a declaration, in order; one of them may be an error. -/
abbrev Plan (kind : DeclarationKind) :=
  List (Except ManifestError (Call (DeclarationStep kind)))

namespace Scope

variable {kind : DeclarationKind}

/-- The calls for what stands above a declaration and before its name. -/
def headPlan (s : Scope) (doc : Option String) (modifiers : List Quoted)
    (attributes : List AttributeEntry) : Plan kind :=
  doc.toList.map (fun text => .ok (.plain (.doc text))) ++
    modifiers.map (fun q => (s.modifier q).map fun m => .plain (.modifier m)) ++
    [(s.attributeCalls attributes).map fun calls => .plain (.attributes calls)]

/-- The call that extends a type. -/
def extendCall (s : Scope) (q : Quoted) : Except ManifestError (Call (DeclarationStep kind)) :=
  (s.resolve q).map fun type => s.call q (.extend type)

/-- The call that implements an interface. -/
def implementCall (s : Scope) (allowed : kind ≠ .interfaceDecl) (q : Quoted) :
    Except ManifestError (Call (DeclarationStep kind)) :=
  (s.resolve q).map fun type => s.call q (.implement type allowed)

/-- The call that adds properties. -/
def propertiesCall (s : Scope) (inInterface : Bool) (ds : List PropertyEntry) :
    Except ManifestError (Call (DeclarationStep kind)) :=
  (ds.mapM (s.propertyCall inInterface)).map fun calls => .plain (.properties calls)

/-- The calls that build a class. -/
def classPlan (s : Scope) (d : ClassEntry) : Plan .classDecl :=
  s.headPlan d.doc d.modifiers d.attributes ++
    d.base.toList.map s.extendCall ++
    d.interfaces.map (s.implementCall (by decide)) ++
    [s.propertiesCall false d.properties] ++
    d.constructors.map (s.constructorCall d.name) ++
    d.methods.map s.methodCall

/-- The calls that build an interface. -/
def interfacePlan (s : Scope) (d : InterfaceEntry) : Plan .interfaceDecl :=
  s.headPlan d.doc d.modifiers d.attributes ++
    d.bases.map s.extendCall ++
    [s.propertiesCall true d.properties] ++
    d.methods.map s.methodCall

/-- The calls that build a record. -/
def recordPlan (s : Scope) (d : RecordEntry) : Plan .recordDecl :=
  s.headPlan d.doc d.modifiers d.attributes ++
    d.parameters.map (fun p =>
      (s.resolve p.type).map fun type => .plain (.parameter p.name.value type)) ++
    d.base.toList.map s.extendCall ++
    d.interfaces.map (s.implementCall (by decide)) ++
    [s.propertiesCall false d.properties] ++
    d.methods.map s.methodCall

end Scope

/-- Runs the calls of a plan, up to the first error. -/
def Plan.run {kind : DeclarationKind} :
    Plan kind → Draft kind → Except ManifestError (Draft kind)
  | [], d => .ok d
  | .error e :: _, _ => .error e
  | .ok c :: plan, d =>
    let r := c.run DeclarationStep.run d
    match r.result with
    | .ok () => Plan.run plan r.state
    | .error f => .error (.build f.error f.place)

/-- Builds a declaration in a namespace. -/
def draft (s : Scope) (space : String) : Definition → Except ManifestError AnyDraft
  | .ofClass d => ((s.classPlan d).run (.new _ d.name.value space)).map (AnyDraft.mk _)
  | .ofInterface d => ((s.interfacePlan d).run (.new _ d.name.value space)).map (AnyDraft.mk _)
  | .ofRecord d => ((s.recordPlan d).run (.new _ d.name.value space)).map (AnyDraft.mk _)

/-- Builds the declarations of a manifest, in the order in which their names are written. -/
def project (m : Manifest) : Except ManifestError Project := do
  let drafts ← m.definitions.mapM (draft (.ofManifest m) m.space)
  return ⟨m.space, drafts, m.style, .standard⟩

/-- Builds the source file of a manifest. -/
def file (m : Manifest) : Except ManifestError Code.File := do
  let p ← m.project
  p.file.build.mapError (.build · none)

/-- The text of the source file of a manifest. -/
def render (m : Manifest) : Except ManifestError String := do
  let p ← m.project
  p.file.render.mapError (.build · none)

end SharpSmith.Manifest
