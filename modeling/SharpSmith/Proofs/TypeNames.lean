import Mathlib.Data.List.Nodup
import SharpSmith.Proofs.Resolution

/-!
# Names as type texts

A declaration of a valid manifest, or a type that is declared elsewhere, can be named in a type text
unless its name is escaped or is the runtime name of a built-in type. An escaped name is no type
text at all, and a runtime name means the built-in type.
-/

namespace SharpSmith

/-- A name that a type text can spell and that no built-in type takes for itself. -/
structure Nameable (name : String) : Prop where
  unescaped : name.toList.head? ≠ some '@'
  free : ∀ b : BuiltIn, b.runtimeName ≠ name

namespace BuiltIn

/-- The keyword of a built-in type is a reserved word. -/
lemma isKeyword_keyword (b : BuiltIn) : Identifier.isKeyword b.keyword = true := by
  cases b <;> decide

/-- Every built-in type is listed. -/
lemma mem_all (b : BuiltIn) : b ∈ all := by
  cases b <;> decide

/-- A word that is not reserved names a built-in type by its runtime name only. -/
lemma ofName?_eq_none_iff {word : String} (h : Identifier.isKeyword word = false) :
    ofName? word = none ↔ ∀ b : BuiltIn, b.runtimeName ≠ word := by
  have hkeyword : ∀ b : BuiltIn, b.keyword ≠ word := by
    intro b e
    rw [← e, isKeyword_keyword] at h
    cases h
  unfold ofName?
  rw [List.find?_eq_none]
  constructor
  · intro hnone b e
    apply hnone b b.mem_all
    simp [e]
  · intro hfree b _
    simp [hkeyword b, hfree b]

end BuiltIn

namespace WrittenType

/-- A word is read as the type with that name. -/
lemma parse_word {name : String} (h : IsWord name.toList) :
    ∃ span, parse name = .ok ⟨name, [], 0, span⟩ := by
  have hblank : Text.trimStart name.toList = name.toList := by
    cases e : name.toList with
    | nil => rfl
    | cons c w =>
      have hc := h.continuesWord c (by rw [e]; exact .head _)
      exact List.dropWhile_cons_of_neg (by simp [Text.isBlank_of_continuesWord hc])
  have htake : name.toList.takeWhile Text.continuesWord = name.toList :=
    List.takeWhile_eq_self_iff.2 h.continuesWord
  have hdigit : name.toList.head?.any Char.isDigit = false := by
    cases e : name.toList with
    | nil => rfl
    | cons c w =>
      rw [e] at h
      cases h with
      | mk hc _ =>
        cases hd : c.isDigit with
        | false => simpa using hd
        | true =>
          rw [Text.startsWord_of_isDigit hd] at hc
          cases hc
  have hempty : name.toList.isEmpty = false := by
    generalize name.toList = cs at h
    cases h
    rfl
  have hname : ∀ size, ∃ span, readName size name.toList = .ok ((name, span), []) := by
    intro size
    unfold readName
    dsimp only
    rw [hblank, htake, if_neg (by simp [hempty]), if_neg (by simp [hdigit]), List.drop_length,
      if_neg (by simp), String.ofList_toList]
    exact ⟨_, rfl⟩
  obtain ⟨span, hname⟩ := hname (Text.byteLength name.toList)
  refine ⟨span, ?_⟩
  -- nothing is left after the name: no arguments, no brackets, no rest
  rw [parse]
  dsimp only
  rw [readType, hname]
  rfl

/-- An escaped name is no type text. -/
lemma parse_escaped {name : String} (h : name.toList.head? = some '@') :
    ∃ e, parse name = .error e := by
  obtain ⟨w, hw⟩ : ∃ w, name.toList = '@' :: w := by
    cases e : name.toList with
    | nil => simp [e] at h
    | cons c w =>
      rw [e] at h
      cases h
      exact ⟨w, rfl⟩
  have hname : ∀ size, ∃ e, readName size name.toList = .error e := by
    intro size
    have hblank : Text.trimStart name.toList = '@' :: w := by
      rw [hw]
      exact List.dropWhile_cons_of_neg (by decide)
    have htake : ('@' :: w).takeWhile Text.continuesWord = [] :=
      List.takeWhile_cons_of_neg (by decide)
    unfold readName
    dsimp only
    rw [hblank, htake]
    exact ⟨_, rfl⟩
  obtain ⟨e, hname⟩ := hname (Text.byteLength name.toList)
  refine ⟨e, ?_⟩
  rw [parse]
  dsimp only
  rw [readType, hname]
  rfl

end WrittenType

namespace Manifest

/-- The declarations of a manifest that passes have different names. -/
lemma nodup_of_validate {m : Manifest} (h : m.validate = .ok ()) :
    (m.definitions.map fun x => x.name.value).Nodup := by
  obtain ⟨-, -, -, hdistinct⟩ := validate_eq_ok_iff.1 h
  exact hdistinct

end Manifest

/-- A key that is there once is found with its value. -/
lemma find?_of_nodup_keys {α : Type} {xs : List (String × α)} {e : String × α}
    (h : (xs.map Prod.fst).Nodup) (he : e ∈ xs) : xs.find? (fun x => x.1 == e.1) = some e := by
  induction xs with
  | nil => cases he
  | cons x xs ih =>
    rw [List.map_cons, List.nodup_cons] at h
    cases he with
    | head => exact List.find?_cons_of_pos (by simp)
    | tail _ he =>
      have hne : x.1 ≠ e.1 := fun e' => h.1 (e' ▸ List.mem_map_of_mem he)
      rw [List.find?_cons_of_neg (by simpa using hne)]
      exact ih h.2 he

namespace Vocabulary

/-- A declaration is found under its name. -/
lemma declared?_of_mem {t : Vocabulary} {d : String × TypeKind}
    (h : (t.declared.map Prod.fst).Nodup)
    (hd : d ∈ t.declared) : t.declared? d.1 = some d.2 := by
  have hfind : t.declared.reverse.find? (fun x => x.1 == d.1) = some d :=
    find?_of_nodup_keys (by rw [List.map_reverse]; exact List.nodup_reverse.2 h)
      (List.mem_reverse.2 hd)
  rw [declared?, hfind]
  rfl

/-- A name that is declared and means no built-in type means the declared type. -/
lemma lookup?_declared {t : Vocabulary} {name kind} (hb : BuiltIn.ofName? name = none)
    (hd : t.declared? name = some kind) :
    t.lookup? name [] = some (t.declaredType name kind []) := by
  rw [lookup?, List.isEmpty_nil, if_pos rfl, hb, hd]

/-- A name that is neither built in nor declared means the type from elsewhere. -/
lemma lookup?_external {t : Vocabulary} {name e} (hb : BuiltIn.ofName? name = none)
    (hd : t.declared? name = none) (he : t.external.get? name = some e) :
    t.lookup? name [] = some (externalType name e []) := by
  rw [lookup?, List.isEmpty_nil, if_pos rfl, hb, hd]
  dsimp only
  rw [he]

/-- Where a type stands in the order of meanings, below the built-in types, its name means it. -/
lemma lookup?_eq_some_iff {t : Vocabulary} {type : TypeRef} {name : String}
    (hfree : Identifier.isKeyword name = false) (hname : type.name = name)
    (hlookup : BuiltIn.ofName? name = none → t.lookup? name [] = some type) :
    t.lookup? name [] = some type ↔ ∀ b : BuiltIn, b.runtimeName ≠ name := by
  rw [← BuiltIn.ofName?_eq_none_iff hfree]
  constructor
  · intro h
    cases hb : BuiltIn.ofName? name with
    | none => rfl
    | some b =>
      -- the built-in type goes by its keyword, which no declaration can have
      rw [lookup?, List.isEmpty_nil, if_pos rfl, hb] at h
      cases h
      rw [← hname, TypeRef.ofBuiltIn, BuiltIn.isKeyword_keyword] at hfree
      cases hfree
  · exact hlookup

end Vocabulary

namespace Manifest

/-- The text of a name means a type of that name just if the name can be read and looked up. -/
lemma resolve_name_iff {s : Scope} {name : String} {type : TypeRef} {span : Span}
    (hname : type.name = name) (hident : IsIdentifier name.toList)
    (hlookup : BuiltIn.ofName? name = none → s.types.lookup? name [] = some type) :
    s.resolve ⟨name, span⟩ = .ok type ↔ Nameable name := by
  by_cases hescape : name.toList.head? = some '@'
  · obtain ⟨e, he⟩ := WrittenType.parse_escaped hescape
    rw [Scope.resolve]
    dsimp only
    rw [he]
    exact ⟨fun h => (by cases h), fun h => absurd hescape h.unescaped⟩
  · obtain ⟨hword, hkeyword⟩ : IsWord name.toList ∧ Identifier.isKeyword name = false := by
      generalize e : name.toList = cs at hident hescape
      cases hident with
      | bare hw hk =>
        rw [← e, String.ofList_toList] at hk
        exact ⟨hw, hk⟩
      | escaped => exact absurd rfl hescape
    obtain ⟨place, hparse⟩ := WrittenType.parse_word hword
    have hresolve : s.resolve ⟨name, span⟩ = .ok type ↔ s.types.lookup? name [] = some type := by
      rw [Scope.resolve]
      dsimp only
      rw [hparse]
      dsimp only
      rw [Vocabulary.resolve, Vocabulary.resolveAll]
      dsimp only
      cases s.types.lookup? name [] with
      | none => exact ⟨fun h => (by cases h), fun h => (by cases h)⟩
      | some found => exact ⟨fun h => by cases h; rfl, fun h => by cases h; rfl⟩
    rw [hresolve, Vocabulary.lookup?_eq_some_iff hkeyword hname hlookup]
    exact ⟨fun h => ⟨hescape, h⟩, Nameable.free⟩

/-- In a valid manifest the name of a declaration, written as a type, means the declared type
exactly when it is neither escaped nor the runtime name of a built-in type; and so does the name of
a type declared elsewhere, unless a declaration goes by the same name. -/
theorem name_resolves_iff {m : Manifest} (hm : m.validate = .ok ()) (span : Span) :
    (∀ d ∈ m.definitions,
      (Scope.ofManifest m).resolve ⟨d.name.value, span⟩ =
          .ok ⟨d.name.value, if m.space.isEmpty then none else some m.space, d.kind.typeKind, none,
            []⟩ ↔
        Nameable d.name.value) ∧
    ∀ e ∈ m.types.entries, (∀ d ∈ m.definitions, d.name.value ≠ e.1) →
      ((Scope.ofManifest m).resolve ⟨e.1, span⟩ =
          .ok ⟨e.1, e.2.space.filter (fun s => !s.isEmpty), e.2.kind, e.2.assembly, []⟩ ↔
        Nameable e.1) := by
  have hchecked := checked_of_validate hm
  have hkeys : ((Vocabulary.ofManifest m).declared.map Prod.fst).Nodup := by
    rw [Vocabulary.ofManifest, List.map_map]
    exact nodup_of_validate hm
  constructor
  · intro d hd
    have hident : IsIdentifier d.name.value.toList :=
      hchecked.names d hd d.name (by simp [Definition.names])
    have hmem : (d.name.value, d.kind.typeKind) ∈ (Vocabulary.ofManifest m).declared :=
      List.mem_map_of_mem hd
    have hdeclared := Vocabulary.declared?_of_mem hkeys hmem
    exact resolve_name_iff rfl hident fun hb => Vocabulary.lookup?_declared hb hdeclared
  · intro e he hshadow
    have hdeclared : (Vocabulary.ofManifest m).declared? e.1 = none := by
      rw [Vocabulary.declared?, Option.map_eq_none_iff, List.find?_eq_none]
      intro x hx
      obtain ⟨d, hd, rfl⟩ := List.mem_map.1 (List.mem_reverse.1 hx)
      simpa using hshadow d hd
    have hexternal : m.types.get? e.1 = some e.2 := by
      rw [ExternalTypes.get?, find?_of_nodup_keys m.types.distinct he]
      rfl
    exact resolve_name_iff rfl (hchecked.external e he).1 fun hb =>
      Vocabulary.lookup?_external hb hdeclared hexternal

/-- A class without members. -/
def emptyClass (name : String) : ClassEntry where
  name := ⟨name, ⟨0, 0⟩⟩
  doc := none
  modifiers := []
  base := none
  interfaces := []
  attributes := []
  properties := []
  constructors := []
  methods := []

/-- A manifest with one class and one type that is declared elsewhere. -/
def declaring (name : String) : Manifest where
  space := "App"
  style := .file
  types := ⟨[("Widget", ⟨some "Zeta.Ui", .interfaceType, some "Zeta"⟩)], by decide⟩
  classes := [emptyClass name]
  interfaces := []
  records := []
  document := ⟨"", ""⟩

/-- The manifest declares just its class. -/
lemma definitions_declaring (name : String) :
    (declaring name).definitions = [.ofClass (emptyClass name)] :=
  List.mergeSort_singleton _

/-- A class called `Event` is found, and so is a type from elsewhere. -/
theorem name_resolves_event :
    (declaring "Event").validate = .ok () ∧
      (Scope.ofManifest (declaring "Event")).resolve ⟨"Event", ⟨0, 7⟩⟩ =
        .ok ⟨"Event", some "App", .classType, none, []⟩ ∧
      (Scope.ofManifest (declaring "Event")).resolve ⟨"Widget", ⟨0, 7⟩⟩ =
        .ok ⟨"Widget", some "Zeta.Ui", .interfaceType, some "Zeta", []⟩ := by
  have hv : (declaring "Event").validate = .ok () := by
    rw [validate, definitions_declaring]
    decide
  obtain ⟨hdeclared, hexternal⟩ := name_resolves_iff hv ⟨0, 7⟩
  rw [definitions_declaring] at hdeclared hexternal
  refine ⟨hv, (hdeclared _ (.head _)).2 ?_, (hexternal _ (.head _) ?_).2 ?_⟩
  · exact ⟨by decide, fun b => by cases b <;> decide⟩
  · intro d hd
    cases List.mem_singleton.1 hd
    decide
  · exact ⟨by decide, fun b => by cases b <;> decide⟩

/-- An escaped name cannot be written as a type, and a runtime name means the built-in type even
where the manifest declares a type of that name. -/
theorem name_unresolved :
    (declaring "@event").validate = .ok () ∧
      (∀ t, (Scope.ofManifest (declaring "@event")).resolve ⟨"@event", ⟨0, 8⟩⟩ ≠ .ok t) ∧
      (declaring "String").validate = .ok () ∧
      (Scope.ofManifest (declaring "String")).resolve ⟨"String", ⟨0, 8⟩⟩ =
        .ok (.ofBuiltIn .string) := by
  refine ⟨?_, ?_, ?_, rfl⟩
  · rw [validate, definitions_declaring]
    decide
  · intro t h
    have hfails : ((Scope.ofManifest (declaring "@event")).resolve ⟨"@event", ⟨0, 8⟩⟩).isOk =
        false := by
      decide
    rw [h] at hfails
    cases hfails
  · rw [validate, definitions_declaring]
    decide

end Manifest

end SharpSmith
