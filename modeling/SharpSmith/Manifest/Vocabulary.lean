import SharpSmith.Catalog
import SharpSmith.Manifest.WrittenType

/-!
# Vocabulary

A name of a manifest means, in this order, a built-in type, a declaration of the manifest, a type
declared elsewhere, or a type of the catalog.
-/

namespace SharpSmith

/-- The kind of the type that a kind of declaration declares. -/
def DeclarationKind.typeKind : DeclarationKind → TypeKind
  | .classDecl => .classType
  | .interfaceDecl => .interfaceType
  | .recordDecl => .recordType

/-- The types that a manifest can name: its declarations, in its namespace, and those declared
elsewhere. -/
structure Vocabulary where
  space : String
  declared : List (String × TypeKind)
  external : ExternalTypes
  deriving Repr

namespace Vocabulary

/-- The types that a manifest can name. -/
def ofManifest (m : Manifest) : Vocabulary :=
  ⟨m.space, m.definitions.map fun d => (d.name.value, d.kind.typeKind), m.types⟩

/-- The kind of the declaration with the given name; of several the last one counts. -/
def declared? (t : Vocabulary) (name : String) : Option TypeKind :=
  (t.declared.reverse.find? (fun d => d.1 == name)).map (·.2)

/-- The type that a declaration with the given name declares. -/
def declaredType (t : Vocabulary) (name : String) (kind : TypeKind) (args : List TypeRef) :
    TypeRef :=
  ⟨name, if t.space.isEmpty then none else some t.space, kind, none, args⟩

/-- The type that is declared elsewhere under the given name. -/
def externalType (name : String) (e : ExternalType) (args : List TypeRef) : TypeRef :=
  ⟨name, e.space.filter (fun s => !s.isEmpty), e.kind, e.assembly, args⟩

/-- The type with the given name and arguments. -/
def lookup? (t : Vocabulary) (name : String) (args : List TypeRef) : Option TypeRef :=
  match (if args.isEmpty then BuiltIn.ofName? name else none) with
  | some b => some (.ofBuiltIn b)
  | none =>
    match t.declared? name with
    | some kind => some (t.declaredType name kind args)
    | none =>
      match t.external.get? name with
      | some e => some (externalType name e args)
      | none => Catalog.lookup? name args

/-- The arrays of a type, as often as `rank` says. -/
def arrays (type : TypeRef) : (rank : Nat) → TypeRef
  | 0 => type
  | rank + 1 => .array (arrays type rank)

mutual

/-- The type that an expression means, or its first part that means none: arguments come before
the type that they are applied to. -/
def resolve (t : Vocabulary) : WrittenType → Except WrittenType TypeRef
  | ⟨name, args, rank, span⟩ =>
    match resolveAll t args with
    | .error e => .error e
    | .ok types =>
      match t.lookup? name types with
      | some type => .ok (arrays type rank)
      | none => .error ⟨name, args, rank, span⟩

/-- The types that expressions mean. -/
def resolveAll (t : Vocabulary) : List WrittenType → Except WrittenType (List TypeRef)
  | [] => .ok []
  | e :: es =>
    match resolve t e with
    | .error e => .error e
    | .ok type =>
      match resolveAll t es with
      | .error e => .error e
      | .ok types => .ok (type :: types)

end

end Vocabulary

end SharpSmith
