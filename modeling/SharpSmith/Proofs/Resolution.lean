import SharpSmith.Manifest.Calls
import SharpSmith.Proofs.Dependencies
import SharpSmith.Proofs.Validation

/-!
# Names and types of valid manifests

In a valid manifest every declaration and member has an identifier for its name, and whatever a
type text means is made of types that have words for names and stand in proper namespaces.
-/

namespace SharpSmith

/-- A namespace is neither empty nor holds white space. -/
lemma IsNamespace.clean {space : String} (h : IsNamespace space.toList) :
    Dependencies.Clean space := by
  have hclean : ∀ cs, IsNamespace cs → cs ≠ [] ∧ ∀ c ∈ cs, Text.isBlank c = false := by
    intro cs h
    induction h with
    | @last w hw => exact ⟨hw.ne_nil, hw.isBlank⟩
    | @dot w cs hw _ ih =>
      refine ⟨by simp, fun c hc => ?_⟩
      rcases List.mem_append.1 hc with hc | hc
      · exact hw.isBlank c hc
      · cases hc with
        | head => decide
        | tail _ hc => exact ih.2 c hc
  obtain ⟨hne, hblank⟩ := hclean _ h
  refine ⟨?_, hblank⟩
  rintro rfl
  exact hne rfl

namespace WrittenType

/-- A type as it is written that has characters of words only in its names. -/
inductive Plain : WrittenType → Prop where
  | mk {name args rank span} :
    (∀ c ∈ name.toList, Text.continuesWord c = true) →
    (∀ e ∈ args, Plain e) →
    Plain ⟨name, args, rank, span⟩

/-- A name that is read is made of characters of words. -/
lemma readName_plain {size cs name span rest} (h : readName size cs = .ok ((name, span), rest)) :
    ∀ c ∈ name.toList, Text.continuesWord c = true := by
  unfold readName at h
  dsimp only at h
  split at h
  case isTrue => cases h
  split at h
  case isTrue => cases h
  split at h
  case isTrue => cases h
  case isFalse =>
    cases h
    rw [String.toList_ofList]
    exact fun c hc => List.mem_takeWhile_imp hc

/-- What is read as a type, or as type arguments, is plain. -/
lemma readType_plain {size budget} :
    (∀ cs e rest, readType size budget cs = .ok (e, rest) → Plain e) ∧
      (∀ cs es rest, readArgs size budget cs = .ok (es, rest) → ∀ e ∈ es, Plain e) := by
  induction budget with
  | zero => exact ⟨fun _ _ _ h => by simp [readType] at h, fun _ _ _ h => by simp [readArgs] at h⟩
  | succ budget ih =>
    constructor
    · intro cs e rest h
      simp only [readType, bind_eq_ok_iff] at h
      obtain ⟨⟨⟨name, span⟩, us⟩, hname, h⟩ := h
      dsimp only at h
      split at h
      · simp only [bind_eq_ok_iff] at h
        obtain ⟨⟨args, vs⟩, hargs, ⟨rank, ws⟩, -, h⟩ := h
        cases h
        exact .mk (readName_plain hname) (ih.2 _ _ _ hargs)
      · simp only [bind_eq_ok_iff] at h
        obtain ⟨⟨args, vs⟩, hargs, ⟨rank, ws⟩, -, h⟩ := h
        cases hargs
        cases h
        exact .mk (readName_plain hname) (by simp)
    · intro cs es rest h
      simp only [readArgs, bind_eq_ok_iff] at h
      obtain ⟨⟨arg, us⟩, harg, h⟩ := h
      have hplain := ih.1 _ _ _ harg
      dsimp only at h
      split at h
      · rw [bind_eq_ok_iff] at h
        obtain ⟨⟨args, vs⟩, hargs, h⟩ := h
        cases h
        exact List.forall_mem_cons.2 ⟨hplain, ih.2 _ _ _ hargs⟩
      · cases h
        simpa using hplain
      · cases h

/-- What a text writes is plain. -/
lemma parse_plain {text e} (h : parse text = .ok e) : Plain e := by
  simp only [parse, bind_eq_ok_iff] at h
  obtain ⟨⟨e', rest⟩, hread, h⟩ := h
  dsimp only at h
  split at h
  · cases h
    exact readType_plain.1 _ _ _ hread
  · cases h

end WrittenType

/-- What holds of each type that a text of a valid manifest names: its namespace is one, and its
name is a word unless it is an array. -/
structure Proper (t : TypeRef) : Prop where
  origin : ∀ space ∈ t.origin, IsNamespace space.toList
  name : IsWord t.name.toList ∨ t.kind = .arrayType ∧ t.name = "[]"

namespace Definition

/-- The names of a declaration and its members that have to be identifiers. -/
def names (d : Definition) : List Quoted :=
  d.name :: d.properties.map PropertyEntry.name ++
    d.methods.flatMap (fun m => m.name :: m.parameters.map ParameterEntry.name) ++
    match d with
    | .ofClass c => c.constructors.flatMap fun k => k.parameters.map ParameterEntry.name
    | .ofRecord r => r.parameters.map ParameterEntry.name
    | .ofInterface _ => []

/-- What holds of all names of a declaration holds of its own and those of its members. -/
lemma forall_mem_names_iff {d : Definition} {P : Quoted → Prop} :
    (∀ q ∈ d.names, P q) ↔
      P d.name ∧ (∀ p ∈ d.properties, P p.name) ∧ (∀ m ∈ d.methods, P m.name) ∧
        ∀ ps ∈ d.parameterLists, ∀ p ∈ ps, P p.name := by
  cases d <;>
    simp only [names, parameterLists, List.cons_append, List.forall_mem_cons,
      List.forall_mem_append, List.forall_mem_map, List.forall_mem_flatMap, List.append_nil,
      List.not_mem_nil, false_imp_iff, implies_true, and_true, forall_and, and_assoc]

end Definition

namespace Manifest

/-- What is checked of a manifest. -/
structure Checked (m : Manifest) : Prop where
  space : Identifier.namespaceFault? m.space = none
  external : ∀ e ∈ m.types.entries, IsIdentifier e.1.toList ∧
    ∀ space ∈ e.2.space, Identifier.namespaceFault? space = none
  names : ∀ x ∈ m.definitions, ∀ q ∈ x.names, IsIdentifier q.value.toList

/-- A valid manifest has been checked. -/
lemma checked_of_validate {m : Manifest} (h : m.validate = .ok ()) : Checked m := by
  obtain ⟨hspace, hexternal, hdefinitions, -⟩ := validate_eq_ok_iff.1 h
  refine ⟨namespaceFault?_eq_none_iff.2 hspace, fun e he => ?_, fun x hx => ?_⟩
  · obtain ⟨hname, horigin⟩ := hexternal e he
    exact ⟨hname, fun space hs => namespaceFault?_eq_none_iff.2 (horigin space hs)⟩
  · have hx := hdefinitions x hx
    exact Definition.forall_mem_names_iff.2
      ⟨hx.name, hx.properties, hx.methods, fun ps hps => (hx.parameters ps hps).identifiers⟩

/-- An identifier of characters of words is a word. -/
lemma isWord_of_isIdentifier {name : String} (h : IsIdentifier name.toList)
    (hn : ∀ c ∈ name.toList, Text.continuesWord c = true) : IsWord name.toList := by
  generalize name.toList = cs at h hn
  cases h with
  | bare hw => exact hw
  | escaped => exact absurd (hn '@' (.head _)) (by decide)

/-- The types of the catalog have words for names and stand in namespaces. -/
lemma catalog_entries : ∀ e ∈ Catalog.entries,
    (e.names.headD "").toList.head?.any Text.startsWord = true ∧
      (e.names.headD "").toList.tail.all Text.continuesWord = true ∧ e.origin ≠ "" ∧
      Identifier.namespaceFault? e.origin = none := by
  decide +kernel

/-- Built-in types are proper. -/
lemma proper_ofBuiltIn {b} : Proper (.ofBuiltIn b) := by
  refine ⟨?_, .inl ?_⟩
  · rintro space ⟨⟩
    exact isNamespace_of_fault? (by decide) (by decide)
  · cases b <;> exact isWord_of_tests (by decide) (by decide)

/-- What the name of a built-in type means without arguments. -/
lemma proper_of_builtIn {name b} {args : List TypeRef}
    (h : (if args.isEmpty then BuiltIn.ofName? name else none) = some b) :
    (TypeRef.ofBuiltIn b).args = args ∧ Proper (.ofBuiltIn b) := by
  split at h
  case isFalse => cases h
  case isTrue ha => exact ⟨(List.isEmpty_iff.1 ha).symm, proper_ofBuiltIn⟩

/-- A type of the catalog is proper and has the given arguments. -/
lemma proper_of_catalog {name args t} (h : Catalog.lookup? name args = some t) :
    t.args = args ∧ Proper t := by
  unfold Catalog.lookup? at h
  split at h
  case h_1 b hb =>
    cases h
    exact proper_of_builtIn hb
  case h_2 =>
    obtain ⟨e, he, rfl⟩ := Option.map_eq_some_iff.1 h
    obtain ⟨hstart, hall, hne, hspace⟩ := catalog_entries e (List.mem_of_find?_eq_some he)
    refine ⟨rfl, ?_, .inl (isWord_of_tests hstart hall)⟩
    rintro space ⟨⟩
    exact isNamespace_of_fault? hspace hne

/-- What a name of a valid manifest means is a proper type with the arguments it is given. -/
lemma Checked.proper_of_lookup? {m : Manifest} {name args t} (hm : Checked m)
    (hn : ∀ c ∈ name.toList, Text.continuesWord c = true)
    (h : (Vocabulary.ofManifest m).lookup? name args = some t) :
    t.args = args ∧ Proper t := by
  unfold Vocabulary.lookup? at h
  split at h
  case h_1 b hb =>
    cases h
    exact proper_of_builtIn hb
  case h_2 =>
    split at h
    case h_1 kind hd =>
      cases h
      obtain ⟨⟨name', kind'⟩, hfind, rfl⟩ := Option.map_eq_some_iff.1 hd
      have hname : name' = name := by simpa using List.find?_some hfind
      obtain ⟨d, hdef, e⟩ := List.mem_map.1 (List.mem_reverse.1 (List.mem_of_find?_eq_some hfind))
      cases e
      refine ⟨rfl, ?_, .inl ?_⟩
      · intro space hspace
        have hown : (if m.space.isEmpty then none else some m.space) = some space := hspace
        split at hown
        case isTrue => cases hown
        case isFalse hne =>
          cases hown
          exact isNamespace_of_fault? hm.space (by simpa using hne)
      · refine isWord_of_isIdentifier ?_ hn
        rw [← hname]
        exact hm.names d hdef d.name (by simp [Definition.names])
    case h_2 =>
      split at h
      case h_1 e he =>
        cases h
        obtain ⟨⟨name', e'⟩, hfind, rfl⟩ := Option.map_eq_some_iff.1 he
        have hname : name' = name := by simpa using List.find?_some hfind
        obtain ⟨hident, hspace⟩ := hm.external _ (List.mem_of_find?_eq_some hfind)
        refine ⟨rfl, ?_, .inl (isWord_of_isIdentifier (hname ▸ hident) hn)⟩
        intro space hs
        obtain ⟨hs, hne⟩ := Option.filter_eq_some_iff.1 hs
        exact isNamespace_of_fault? (hspace space hs) (by simpa using hne)
      case h_2 => exact proper_of_catalog h

/-- The parts of a type are the type itself and the parts of its arguments. -/
lemma nodes_eq {t : TypeRef} : t.nodes = t :: TypeRef.nodesAll t.args := by
  cases t
  rw [TypeRef.nodes]

/-- The arrays of a type whose parts are proper have proper parts. -/
lemma proper_arrays {t rank} (h : ∀ n ∈ t.nodes, Proper n) :
    ∀ n ∈ (Vocabulary.arrays t rank).nodes, Proper n := by
  induction rank with
  | zero => exact h
  | succ rank ih =>
    rw [Vocabulary.arrays, nodes_eq, List.forall_mem_cons]
    refine ⟨⟨nofun, .inr ⟨rfl, rfl⟩⟩, ?_⟩
    rw [TypeRef.array, TypeRef.nodesAll, TypeRef.nodesAll, List.append_nil]
    exact ih

/-- All parts of what a plain type of a valid manifest means are proper. -/
lemma Checked.proper_of_resolve {m : Manifest} {e t} (hm : Checked m) (he : e.Plain)
    (h : (Vocabulary.ofManifest m).resolve e = .ok t) : ∀ n ∈ t.nodes, Proper n := by
  induction he generalizing t with
  | @mk name args rank span hn hargs ih =>
    rw [Vocabulary.resolve] at h
    split at h
    case h_1 => cases h
    case h_2 types htypes =>
      split at h
      case h_2 => cases h
      case h_1 type hlookup =>
        cases h
        obtain ⟨hsame, hproper⟩ := hm.proper_of_lookup? hn hlookup
        refine proper_arrays ?_
        rw [nodes_eq, hsame, List.forall_mem_cons]
        refine ⟨hproper, ?_⟩
        clear hlookup hsame hargs
        induction args generalizing types with
        | nil =>
          cases htypes
          simp [TypeRef.nodesAll]
        | cons a args iha =>
          rw [Vocabulary.resolveAll] at htypes
          split at htypes
          case h_1 => cases htypes
          case h_2 type ha =>
            split at htypes
            case h_1 => cases htypes
            case h_2 us hus =>
              cases htypes
              rw [TypeRef.nodesAll]
              intro n hmem
              rcases List.mem_append.1 hmem with hmem | hmem
              · exact ih a (.head _) ha n hmem
              · exact iha (fun e he => ih e (.tail _ he)) us hus n hmem

/-- All parts of what a type text of a valid manifest means are proper. -/
lemma Checked.proper {m : Manifest} {q t} (hm : Checked m)
    (h : (Scope.ofManifest m).resolve q = .ok t) : ∀ n ∈ t.nodes, Proper n := by
  unfold Scope.resolve at h
  dsimp only at h
  split at h
  case h_1 => cases h
  case h_2 e he =>
    split at h
    case h_1 => cases h
    case h_2 t ht =>
      cases h
      exact hm.proper_of_resolve (WrittenType.parse_plain he) ht

end Manifest

end SharpSmith
