import SharpSmith.Proofs.UnknownTypes

/-!
# Displayed types

The text that a type is displayed as can be read and means a type again. It means the same type
unless some part of what was written first is misnamed: a type declared elsewhere as an array, which
is displayed without its name, or a type of the catalog that is found under its short name while its
full name means another type.
-/

namespace SharpSmith

namespace WrittenType

/-- The empty text is white space. -/
lemma blank_nil : Blank [] := by
  intro c hc
  cases hc

/-- Array brackets after others. -/
lemma Brackets.snoc {rank ds} (h : Brackets rank ds) : Brackets (rank + 1) (ds ++ ['[', ']']) := by
  induction h with
  | nil => exact .pair blank_nil blank_nil .nil
  | @pair rank w v cs hw hv _ ih =>
    have hplace : w ++ '[' :: (v ++ ']' :: cs) ++ ['[', ']'] =
        w ++ '[' :: (v ++ ']' :: (cs ++ ['[', ']'])) := by simp
    rw [hplace]
    exact .pair hw hv ih

/-- The name of a type that is written in a text. -/
lemma Occurs.isTypeName {cs e} (h : Occurs cs e) : IsTypeName e.name.toList := by
  obtain ⟨before, t, after, -, ht, -, -⟩ := h
  cases ht with
  | mk _ hn => rwa [String.toList_ofList]

/-- Array brackets after a type. -/
lemma Spells.array {offset cs e} (h : Spells offset cs e) :
    Spells offset (cs ++ ['[', ']']) { e with rank := e.rank + 1 } := by
  cases h with
  | mk hw hn hargs hds =>
    rw [List.append_assoc]
    exact .mk hw hn hargs hds.snoc

/-- A space before a type. -/
lemma Spells.after_space {offset cs e} (h : Spells (offset + 1) cs e) :
    Spells offset (' ' :: cs) e := by
  cases h with
  | @mk _ w name us args ds rank hw hn hargs hds =>
    have hblank : Blank (' ' :: w) := List.forall_mem_cons.2 ⟨by decide, hw⟩
    have hplace (cs) : offset + 1 + Text.byteLength cs = offset + Text.byteLength (' ' :: cs) := by
      rw [Text.byteLength, ← Nat.add_assoc]
      rfl
    rw [hplace] at hargs ⊢
    exact .mk hblank hn hargs hds

/-- A space before types with commas between. -/
lemma SpellsList.after_space {offset cs es} (h : SpellsList (offset + 1) cs es) :
    SpellsList offset (' ' :: cs) es := by
  cases h with
  | last ht hw => exact .last ht.after_space hw
  | @cons _ cs arg w ds args ht hw hds =>
    have hplace : offset + 1 + Text.byteLength (cs ++ w ++ [',']) =
        offset + Text.byteLength (' ' :: cs ++ w ++ [',']) := by
      rw [List.cons_append, List.cons_append, Text.byteLength, ← Nat.add_assoc]
      rfl
    rw [hplace] at hds
    exact .cons ht.after_space hw hds

end WrittenType

namespace Vocabulary

variable {t : Vocabulary}

/-- A text writes a type, wherever it stands, and what it writes means `type`. -/
def Denotes (t : Vocabulary) (text : String) (type : TypeRef) : Prop :=
  ∀ offset, ∃ e, WrittenType.Spells offset text.toList e ∧ t.resolve e = .ok type

/-- What means a type means the arrays of it with more brackets. -/
lemma resolve_array {e : WrittenType} {type} (h : t.resolve e = .ok type) :
    t.resolve { e with rank := e.rank + 1 } = .ok type.array := by
  obtain ⟨name, args, rank, span⟩ := e
  rw [resolve] at h ⊢
  split at h
  case h_1 => cases h
  case h_2 types htypes =>
    split at h
    case h_2 => cases h
    case h_1 found hfound =>
      cases h
      rw [htypes]
      dsimp only
      rw [hfound]
      rfl

/-- Array brackets after a text. -/
lemma Denotes.array {text type} (h : t.Denotes text type) :
    t.Denotes (text ++ "[]") type.array := by
  intro offset
  obtain ⟨e, he, hresolve⟩ := h offset
  refine ⟨_, ?_, resolve_array hresolve⟩
  rw [String.toList_append]
  exact he.array

/-- Types with commas between. -/
lemma denotes_list {texts : List String} {types} (h : List.Forall₂ t.Denotes texts types)
    (hne : texts ≠ []) (offset : Nat) :
    ∃ es, WrittenType.SpellsList offset ((Text.join ", " texts).toList ++ ['>']) es ∧
      t.resolveAll es = .ok types := by
  induction h generalizing offset with
  | nil => exact absurd rfl hne
  | @cons text type texts types htext hrest ih =>
    obtain ⟨e, he, hresolve⟩ := htext offset
    cases hrest with
    | nil =>
      refine ⟨[e], ?_, ?_⟩
      · rw [Text.join]
        have := WrittenType.SpellsList.last he WrittenType.blank_nil
        rwa [List.append_nil] at this
      · rw [resolveAll, hresolve]
        rfl
    | @cons text' type' texts types htext' hrest =>
      obtain ⟨es, hes, hall⟩ :=
        ih (by simp) (offset + Text.byteLength (text.toList ++ [] ++ [',']) + 1)
      refine ⟨e :: es, ?_, ?_⟩
      · have hlist := WrittenType.SpellsList.cons he WrittenType.blank_nil hes.after_space
        have hjoin : Text.join ", " (text :: text' :: texts) =
            text ++ ", " ++ Text.join ", " (text' :: texts) := rfl
        rw [hjoin]
        simpa using hlist
      · rw [resolveAll, hresolve, hall]

/-- A name with type arguments, if there are some, means what is found for it. -/
lemma denotes_named {name : String} {texts : List String} {types type}
    (hname : WrittenType.IsTypeName name.toList) (htexts : List.Forall₂ t.Denotes texts types)
    (hlookup : t.lookup? name types = some type) :
    t.Denotes (if texts.isEmpty then name else name ++ "<" ++ Text.join ", " texts ++ ">")
      type := by
  intro offset
  obtain ⟨cs, es, hcs, hargs, hes⟩ : ∃ cs es,
      (if texts.isEmpty then name else name ++ "<" ++ Text.join ", " texts ++ ">").toList =
        name.toList ++ cs ∧
      WrittenType.SpellsArgs (offset + Text.byteLength ([] ++ name.toList)) cs es ∧
      t.resolveAll es = .ok types := by
    cases texts with
    | nil =>
      cases htexts
      exact ⟨[], [], by simp, .nil, rfl⟩
    | cons text texts =>
      obtain ⟨es, hes, hall⟩ := denotes_list htexts (by simp)
        (offset + Text.byteLength ([] ++ name.toList) + Text.byteLength ([] ++ ['<']))
      exact ⟨_, es, by simp, .list WrittenType.blank_nil hes, hall⟩
  have hspells := WrittenType.Spells.mk WrittenType.blank_nil hname hargs .nil
  rw [List.nil_append, List.append_nil, ← hcs] at hspells
  refine ⟨_, hspells, ?_⟩
  rw [resolve, hes, String.ofList_toList]
  dsimp only
  rw [hlookup]
  rfl

end Vocabulary

namespace TypeRef

/-- The texts of types are those of each of them. -/
lemma displayAll_eq (ts : List TypeRef) : displayAll ts = ts.map display := by
  induction ts with
  | nil => rfl
  | cons t ts ih => rw [displayAll, ih, List.map_cons]

/-- A type is displayed by its name, with type arguments if there are some. -/
lemma display_named {t : TypeRef} (h : t.kind ≠ .arrayType) :
    t.display = if (t.args.map display).isEmpty then t.name
      else t.name ++ "<" ++ Text.join ", " (t.args.map display) ++ ">" := by
  obtain ⟨name, origin, kind, artifact, args⟩ := t
  rw [display, displayAll_eq, List.isEmpty_map, if_neg (by simpa using h)]

/-- An array is displayed by its element type, or as one of objects. -/
lemma display_array {t : TypeRef} (h : t.kind = .arrayType) :
    t.display = (t.args.map display).head?.getD BuiltIn.object.keyword ++ "[]" := by
  obtain ⟨name, origin, kind, artifact, args⟩ := t
  rw [display, displayAll_eq, if_pos (by simpa using h)]

/-- References mean the same type if name, namespace and all arguments are the same. -/
lemma same_iff {t u : TypeRef} :
    t.same u = true ↔ t.name = u.name ∧ t.origin = u.origin ∧ sameAll t.args u.args = true := by
  cases t
  simp [same, and_assoc]

/-- Arrays of one rank are the same just if their elements are. -/
lemma same_arrays {t u : TypeRef} (rank : Nat) :
    (Vocabulary.arrays t rank).same (Vocabulary.arrays u rank) = t.same u := by
  induction rank with
  | zero => rfl
  | succ rank ih => simp [Vocabulary.arrays, array, same, sameAll, ih]

end TypeRef

/-- The name that a type of the catalog goes by. -/
def Catalog.Entry.fullName (c : Catalog.Entry) : String :=
  c.names.headD ""

namespace Vocabulary

/-- The type of the catalog that a written type goes back to, if its name means one. -/
def catalogued? (t : Vocabulary) (e : WrittenType) : Option Catalog.Entry :=
  if e.args.isEmpty && (BuiltIn.ofName? e.name).isSome then none
  else if (t.declared? e.name).isSome || (t.external.get? e.name).isSome then none
  else Catalog.entries.find? fun c => c.names.contains e.name && c.arity == e.args.length

/-- What a written type goes back to: `type` is found for its name with the given arguments. -/
inductive Meaning (t : Vocabulary) (e : WrittenType) (args : List TypeRef) : TypeRef → Prop where
  | builtIn {b} :
    args = [] →
    BuiltIn.ofName? e.name = some b →
    t.external? e = none →
    t.catalogued? e = none →
    Meaning t e args (.ofBuiltIn b)
  | declared {kind} :
    (e.name, kind) ∈ t.declared →
    t.external? e = none →
    t.catalogued? e = none →
    Meaning t e args (t.declaredType e.name kind args)
  | external {x} :
    t.external? e = some x →
    t.catalogued? e = none →
    Meaning t e args (externalType e.name x args)
  | catalog {c} :
    t.external? e = none →
    t.catalogued? e = some c →
    Meaning t e args (c.typeRef args)

variable {t : Vocabulary}

/-- Lists of one length are both empty or both not. -/
lemma isEmpty_of_length {α β : Type} {xs : List α} {ys : List β} (h : xs.length = ys.length) :
    xs.isEmpty = ys.isEmpty := by
  rw [Bool.eq_iff_iff, List.isEmpty_iff_length_eq_zero, List.isEmpty_iff_length_eq_zero, h]

/-- What is found for a name is one of the things that the name can go back to. -/
lemma meaning_of_lookup? {e : WrittenType} {args : List TypeRef} {type}
    (hlen : args.length = e.args.length) (h : t.lookup? e.name args = some type) :
    t.Meaning e args type := by
  have hempty := isEmpty_of_length hlen
  unfold lookup? at h
  split at h
  case h_1 b hb =>
    cases h
    split at hb
    case isFalse => cases hb
    case isTrue he =>
      have hargs : e.args.isEmpty = true := hempty.symm.trans he
      refine .builtIn (List.isEmpty_iff.1 he) hb ?_ ?_
      · simp [external?, hargs, hb]
      · simp [catalogued?, hargs, hb]
  case h_2 hfree =>
    have hbuiltIn : (e.args.isEmpty && (BuiltIn.ofName? e.name).isSome) = false := by
      rw [← hempty]
      cases he : args.isEmpty with
      | false => rfl
      | true => simpa [he] using hfree
    split at h
    case h_1 kind hkind =>
      cases h
      obtain ⟨⟨name, k⟩, hfind, rfl⟩ := Option.map_eq_some_iff.1 hkind
      have hname : name = e.name := by simpa using List.find?_some hfind
      have hmem := List.mem_reverse.1 (List.mem_of_find?_eq_some hfind)
      refine .declared (hname ▸ hmem) ?_ ?_
      · simp [external?, hkind]
      · simp [catalogued?, hkind]
    case h_2 hundeclared =>
      split at h
      case h_1 x hx =>
        cases h
        refine .external ?_ ?_
        · simp [external?, hbuiltIn, hundeclared, hx]
        · simp [catalogued?, hx]
      case h_2 hunknown =>
        unfold Catalog.lookup? at h
        rw [hfree] at h
        dsimp only at h
        obtain ⟨c, hc, rfl⟩ := Option.map_eq_some_iff.1 h
        refine .catalog ?_ ?_
        · simp [external?, hunknown]
        · simp only [catalogued?, hbuiltIn, hundeclared, hunknown, ← hlen]
          exact hc

/-- The same is found for a name with as many arguments, applied to these. -/
lemma lookup?_args {name : String} {args us : List TypeRef} {type} (hlen : us.length = args.length)
    (h : t.lookup? name args = some type) : t.lookup? name us = some { type with args := us } := by
  have hempty := isEmpty_of_length hlen
  unfold lookup? at *
  rw [hempty]
  split at h
  case h_1 b hb =>
    cases h
    split at hb
    case isFalse => cases hb
    case isTrue he =>
      obtain rfl : us = [] := List.isEmpty_iff.1 (hempty.trans he)
      rfl
  case h_2 hfree =>
    split at h
    case h_1 kind hkind =>
      cases h
      rfl
    case h_2 hundeclared =>
      split at h
      case h_1 x hx =>
        cases h
        rfl
      case h_2 hunknown =>
        unfold Catalog.lookup? at *
        rw [hempty, hlen]
        rw [hfree] at h ⊢
        dsimp only at h ⊢
        obtain ⟨c, hc, rfl⟩ := Option.map_eq_some_iff.1 h
        rw [hc]
        rfl

/-- A written type that is displayed in such a way that it does not go back to itself. -/
inductive Misnames (t : Vocabulary) (e : WrittenType) : Prop where
  | array {x} :
    t.external? e = some x →
    x.kind = .arrayType →
    Misnames t e
  | short {c u} :
    t.catalogued? e = some c →
    e.name ≠ c.fullName →
    t.lookup? c.fullName [] = some u →
    u.origin ≠ some c.origin →
    Misnames t e

/-- A name that the tests for the characters of a name accept. -/
def PassesAsName (name : String) : Prop :=
  name.toList ≠ [] ∧ name.toList.all Text.continuesWord = true ∧
    name.toList.head?.any Char.isDigit = false

/-- Whether a name passes the tests can be decided. -/
instance (name : String) : Decidable (PassesAsName name) :=
  inferInstanceAs (Decidable (_ ∧ _ ∧ _))

/-- A name that passes the tests is the name of a type. -/
lemma PassesAsName.isTypeName {name : String} (h : PassesAsName name) :
    WrittenType.IsTypeName name.toList where
  ne_nil := h.1
  word := List.all_eq_true.1 h.2.1
  noDigit c hc := by
    have hdigit := h.2.2
    rw [hc] at hdigit
    exact hdigit

/-- What the types of the catalog have in common. One with a second name takes no arguments. -/
lemma entry_facts : ∀ c ∈ Catalog.entries, c.kind ≠ .arrayType ∧ BuiltIn.ofName? c.fullName = none ∧
    c.names.contains c.fullName = true ∧ PassesAsName c.fullName ∧
    (c.names = [c.fullName] ∨ c.arity = 0) := by
  decide +kernel

/-- The keyword of a built-in type means the type and passes as a name. -/
lemma keyword_facts (b : BuiltIn) :
    BuiltIn.ofName? b.keyword = some b ∧ PassesAsName b.keyword := by
  cases b <;> decide +kernel

/-- A type is not misnamed if it is no array from elsewhere and, if catalogued, written in full. -/
lemma not_misnames {e : WrittenType} (hexternal : ∀ x, t.external? e = some x → x.kind ≠ .arrayType)
    (hcatalog : ∀ c, t.catalogued? e = some c → e.name = c.fullName) : ¬t.Misnames e := by
  rintro (⟨hx, hkind⟩ | ⟨hc, hname, -, -⟩)
  · exact hexternal _ hx hkind
  · exact hname (hcatalog _ hc)

/-- A type that is no array is displayed as what its name and the texts of its arguments mean. -/
lemma denotes_display {type u : TypeRef} {us} (hkind : type.kind ≠ .arrayType)
    (hname : WrittenType.IsTypeName type.name.toList)
    (htexts : List.Forall₂ t.Denotes (type.args.map TypeRef.display) us)
    (hlookup : t.lookup? type.name us = some u) : t.Denotes type.display u := by
  rw [TypeRef.display_named hkind]
  exact denotes_named hname htexts hlookup

/-- A keyword means its type. -/
lemma denotes_builtIn (b : BuiltIn) : t.Denotes b.keyword (.ofBuiltIn b) := by
  obtain ⟨hfound, hname⟩ := keyword_facts b
  have hlookup : t.lookup? b.keyword [] = some (.ofBuiltIn b) := by
    rw [lookup?, List.isEmpty_nil, if_pos rfl, hfound]
  have hnamed := denotes_named hname.isTypeName .nil hlookup
  rwa [List.isEmpty_nil, if_pos rfl] at hnamed

/-- A type that is found under its own name is found again when it is displayed. -/
lemma displayed_named {e : WrittenType} {args us type}
    (hname : WrittenType.IsTypeName e.name.toList) (hlookup : t.lookup? e.name args = some type)
    (hsame : type.name = e.name) (hkind : type.kind ≠ .arrayType) (hfair : ¬t.Misnames e)
    (htexts : List.Forall₂ t.Denotes (args.map TypeRef.display) us) :
    ∃ u, t.Denotes type.display u ∧
      (u.same type = true ↔ ¬t.Misnames e ∧ TypeRef.sameAll us args = true) := by
  have hargs := args_of_lookup? hlookup
  have hlen : us.length = args.length := by rw [← htexts.length_eq, List.length_map]
  rw [← hsame] at hname hlookup
  rw [← hargs] at htexts
  refine ⟨_, denotes_display hkind hname htexts (lookup?_args hlen hlookup), ?_⟩
  rw [TypeRef.same_iff, hargs]
  simp [hfair]

/-- An array that is declared elsewhere is displayed as one of its first argument, or of objects,
and so without its name. -/
lemma displayed_external_array {e : WrittenType} {x : ExternalType} {args us}
    (hname : WrittenType.IsTypeName e.name.toList) (hx : t.external? e = some x)
    (hkind : x.kind = .arrayType)
    (htexts : List.Forall₂ t.Denotes (args.map TypeRef.display) us) :
    ∃ u, t.Denotes (externalType e.name x args).display u ∧
      (u.same (externalType e.name x args) = true ↔
        ¬t.Misnames e ∧ TypeRef.sameAll us args = true) := by
  have hmisnames : t.Misnames e := .array hx hkind
  -- an array goes by its brackets, which no written name has
  have hdiffers : "[]" ≠ e.name := by
    intro h
    have hword := hname.word '[' (by rw [← h]; decide)
    revert hword
    decide
  obtain ⟨u, hu⟩ : ∃ u, t.Denotes ((args.map TypeRef.display).head?.getD
      BuiltIn.object.keyword) u := by
    generalize args.map TypeRef.display = texts at htexts
    cases htexts with
    | nil => exact ⟨_, denotes_builtIn .object⟩
    | cons h _ => exact ⟨_, h⟩
  refine ⟨u.array, ?_, ?_⟩
  · rw [TypeRef.display_array hkind]
    exact hu.array
  · rw [TypeRef.same_iff]
    simp only [hmisnames, not_true, false_and, iff_false]
    exact fun h => hdiffers h.1

/-- A type that is found in the catalog is an entry of it with that name and arity. -/
lemma entry_of_catalogued? {e : WrittenType} {c} (h : t.catalogued? e = some c) :
    c ∈ Catalog.entries ∧ c.names.contains e.name = true ∧ c.arity = e.args.length := by
  unfold catalogued? at h
  split at h
  case isTrue => cases h
  case isFalse =>
    split at h
    case isTrue => cases h
    case isFalse =>
      obtain ⟨hname, harity⟩ := by simpa using List.find?_some h
      exact ⟨List.mem_of_find?_eq_some h, by simpa using hname, harity⟩

/-- The first name of a type of the catalog is the first name of whatever has it. -/
lemma fullName_unique : ∀ c ∈ Catalog.entries, ∀ c' ∈ Catalog.entries,
    c'.names.contains c.fullName = true → c'.fullName = c.fullName := by
  decide +kernel

/-- What is found under the first name of a type of the catalog has that name. -/
lemma name_of_lookup?_fullName {c : Catalog.Entry} {u} (hc : c ∈ Catalog.entries)
    (h : t.lookup? c.fullName [] = some u) : u.name = c.fullName := by
  have hmeaning : t.Meaning ⟨c.fullName, [], 0, ⟨0, 0⟩⟩ [] u := meaning_of_lookup? rfl h
  cases hmeaning with
  | builtIn _ hb =>
    rw [(entry_facts c hc).2.1] at hb
    cases hb
  | declared => rfl
  | external => rfl
  | @catalog c' _ hc' =>
    obtain ⟨hmem, hname, -⟩ := entry_of_catalogued? hc'
    exact fullName_unique c hc c' hmem hname

/-- A type of the catalog that is found under a second name is displayed under its first one, and
what is found under that may be another type. -/
lemma displayed_short {e : WrittenType} {c : Catalog.Entry} {args us}
    (hexternal : t.external? e = none) (hc : t.catalogued? e = some c)
    (hlen : args.length = e.args.length) (hshort : e.name ≠ c.fullName)
    (htexts : List.Forall₂ t.Denotes (args.map TypeRef.display) us) :
    ∃ u, t.Denotes (c.typeRef args).display u ∧
      (u.same (c.typeRef args) = true ↔ ¬t.Misnames e ∧ TypeRef.sameAll us args = true) := by
  obtain ⟨hmem, hname, harity⟩ := entry_of_catalogued? hc
  obtain ⟨hkind, -, hfull, hword, hplain⟩ := entry_facts c hmem
  -- only types without arguments have a second name
  have hzero : c.arity = 0 := by
    rcases hplain with hnames | hzero
    · rw [hnames] at hname
      exact absurd (by simpa using hname) hshort
    · exact hzero
  obtain rfl : args = [] := List.eq_nil_of_length_eq_zero (by omega)
  cases htexts
  obtain ⟨u, hu⟩ : ∃ u, t.lookup? c.fullName [] = some u := by
    rw [← Option.isSome_iff_exists, isSome_lookup?, means]
    have hcatalog : Catalog.entries.any (fun x =>
        x.names.contains c.fullName && x.arity == ([] : List TypeRef).length) = true := by
      rw [List.any_eq_true]
      exact ⟨c, hmem, by rw [hfull, hzero]; rfl⟩
    rw [hcatalog, Bool.or_true]
  refine ⟨u, denotes_display hkind hword.isTypeName .nil hu, ?_⟩
  have hmisnames : t.Misnames e ↔ u.origin ≠ some c.origin := by
    constructor
    · rintro (⟨hx, -⟩ | ⟨hc', -, hu', horigin⟩)
      · rw [hexternal] at hx
        cases hx
      · rw [hc] at hc'
        cases hc'
        rw [hu] at hu'
        cases hu'
        exact horigin
    · exact .short hc hshort hu
  rw [TypeRef.same_iff, hmisnames, args_of_lookup? hu, name_of_lookup?_fullName hmem hu, not_not]
  exact and_iff_right rfl

/-- What is found for a name is displayed as a text that means a type again: the same, unless the
name is misnamed or its arguments are. -/
lemma displayed_root {e : WrittenType} {args us type} (hkinds : ∀ d ∈ t.declared, d.2 ≠ .arrayType)
    (hname : WrittenType.IsTypeName e.name.toList) (hlen : args.length = e.args.length)
    (hlookup : t.lookup? e.name args = some type)
    (htexts : List.Forall₂ t.Denotes (args.map TypeRef.display) us) :
    ∃ u, t.Denotes type.display u ∧
      (u.same type = true ↔ ¬t.Misnames e ∧ TypeRef.sameAll us args = true) := by
  cases meaning_of_lookup? hlen hlookup with
  | @builtIn b hargs _ hexternal hcatalog =>
    subst hargs
    cases htexts
    have hfair : ¬t.Misnames e := not_misnames (by simp [hexternal]) (by simp [hcatalog])
    refine ⟨_, denotes_builtIn b, ?_⟩
    simp [TypeRef.same_iff, hfair, TypeRef.ofBuiltIn, TypeRef.sameAll]
  | declared hmem hexternal hcatalog =>
    exact displayed_named hname hlookup rfl (hkinds _ hmem)
      (not_misnames (by simp [hexternal]) (by simp [hcatalog])) htexts
  | @external x hexternal hcatalog =>
    by_cases hkind : x.kind = .arrayType
    · exact displayed_external_array hname hexternal hkind htexts
    · refine displayed_named hname hlookup rfl hkind (not_misnames ?_ (by simp [hcatalog])) htexts
      rintro y hy
      rw [hexternal] at hy
      cases hy
      exact hkind
  | @catalog c hexternal hcatalog =>
    by_cases hshort : e.name = c.fullName
    · refine displayed_named hname hlookup hshort.symm ?_ (not_misnames (by simp [hexternal]) ?_)
        htexts
      · exact (entry_facts c (entry_of_catalogued? hcatalog).1).1
      · rintro y hy
        rw [hcatalog] at hy
        cases hy
        exact hshort
    · exact displayed_short hexternal hcatalog hlen hshort htexts

/-- Arrays are displayed as arrays of what their elements are displayed as. -/
lemma denotes_arrays {type u : TypeRef} (h : t.Denotes type.display u) (rank : Nat) :
    t.Denotes (arrays type rank).display (arrays u rank) := by
  induction rank with
  | zero => exact h
  | succ rank ih =>
    have hdisplay : (arrays type (rank + 1)).display = (arrays type rank).display ++ "[]" := by
      rw [arrays, TypeRef.display_array rfl]
      rfl
    rw [hdisplay]
    exact ih.array

/-- A written type is displayed as a text that means a type again: the same one just if none of its
parts is misnamed. -/
def Redisplays (t : Vocabulary) (e : WrittenType) (type : TypeRef) : Prop :=
  ∃ u, t.Denotes type.display u ∧
    (u.same type = true ↔ ∀ n, WrittenType.Part n e → ¬t.Misnames n)

/-- Types that are displayed as texts that mean types again are so together. -/
lemma displayed_all {es : List WrittenType} {types}
    (hes : ∀ e ∈ es, ∀ type, t.resolve e = .ok type → t.Redisplays e type)
    (h : List.Forall₂ (fun e type => t.resolve e = .ok type) es types) :
    ∃ us, List.Forall₂ t.Denotes (types.map TypeRef.display) us ∧
      (TypeRef.sameAll us types = true ↔
        ∀ e ∈ es, ∀ n, WrittenType.Part n e → ¬t.Misnames n) := by
  induction h with
  | nil => exact ⟨[], .nil, by simp [TypeRef.sameAll]⟩
  | cons he _ ih =>
    rw [List.forall_mem_cons] at hes
    obtain ⟨u, hu, hsame⟩ := hes.1 _ he
    obtain ⟨us, hus, hall⟩ := ih hes.2
    refine ⟨u :: us, .cons hu hus, ?_⟩
    rw [TypeRef.sameAll, Bool.and_eq_true, hsame, hall, List.forall_mem_cons]

/-- What a written type means is displayed as a text that means a type again. -/
lemma displayed_resolve (hkinds : ∀ d ∈ t.declared, d.2 ≠ .arrayType) {e : WrittenType} {type}
    (hnames : ∀ n, WrittenType.Part n e → WrittenType.IsTypeName n.name.toList)
    (h : t.resolve e = .ok type) : t.Redisplays e type := by
  induction e using WrittenType.induction generalizing type with
  | h e ih =>
    obtain ⟨name, args, rank, span⟩ := e
    rw [resolve] at h
    split at h
    case h_1 => cases h
    case h_2 types htypes =>
      split at h
      case h_2 => cases h
      case h_1 found hfound =>
        cases h
        have hresolved := forall₂_of_resolveAll htypes
        obtain ⟨us, hus, hsame⟩ := displayed_all
          (fun a ha _ => ih a ha fun n hn => hnames n (.arg ha hn)) hresolved
        obtain ⟨u, hu, hroot⟩ := displayed_root (e := ⟨name, args, rank, span⟩) hkinds
          (hnames _ .self) hresolved.length_eq.symm hfound hus
        refine ⟨arrays u rank, denotes_arrays hu rank, ?_⟩
        rw [TypeRef.same_arrays, hroot, hsame]
        constructor
        · rintro ⟨hself, hargs⟩ n hn
          cases hn with
          | self => exact hself
          | arg ha hn => exact hargs _ ha n hn
        · exact fun hall => ⟨hall _ .self, fun a ha n hn => hall n (.arg ha hn)⟩

end Vocabulary

namespace Manifest

/-- The text that a type is displayed as means a type again, namely the same one unless some part of
what was written is misnamed: it goes back to a type that is declared elsewhere as an array, or it
is the second name of a type of the catalog whose first name means another type. -/
theorem displayed_type_resolves {m : Manifest} {q : Quoted} {w : WrittenType} {type : TypeRef}
    (hparse : WrittenType.parse q.value = .ok w)
    (h : (Scope.ofManifest m).resolve q = .ok type) (span : Span) :
    ∃ u, (Scope.ofManifest m).resolve ⟨type.display, span⟩ = .ok u ∧
      (u.same type = true ↔
        ∀ e, WrittenType.Part e w → ¬(Vocabulary.ofManifest m).Misnames e) := by
  obtain ⟨w', hparse', hresolve⟩ := resolve_eq_ok h
  cases hparse.symm.trans hparse'
  have hkinds : ∀ d ∈ (Vocabulary.ofManifest m).declared, d.2 ≠ .arrayType := by
    intro d hd
    obtain ⟨x, -, rfl⟩ := List.mem_map.1 hd
    show x.kind.typeKind ≠ .arrayType
    cases x.kind <;> decide
  obtain ⟨u, hu, hsame⟩ := Vocabulary.displayed_resolve hkinds
    (fun n hn => (WrittenType.occurs_of_parse hparse hn).isTypeName) hresolve
  obtain ⟨e, hspells, hu⟩ := hu 0
  have hread : WrittenType.parse type.display = .ok e :=
    WrittenType.parse_eq_ok_iff.2 ⟨_, [], (List.append_nil _).symm, hspells, WrittenType.blank_nil⟩
  refine ⟨u, ?_, hsame⟩
  unfold Scope.resolve
  dsimp only
  rw [hread]
  dsimp only
  rw [show (Scope.ofManifest m).types.resolve e = .ok u from hu]

/-- A type text with a part that is displayed otherwise than it is written. -/
def eventsText : Quoted :=
  ⟨"Dictionary<String, Event[]>", ⟨0, 0⟩⟩

/-- A built-in type is displayed by its keyword, and arrays of a declared type as they are written.
Both are found again. -/
theorem displayed_type_resolves_events :
    ∃ type u, (Scope.ofManifest (declaring "Event")).resolve eventsText = .ok type ∧
      type.display = "Dictionary<string, Event[]>" ∧
      (Scope.ofManifest (declaring "Event")).resolve ⟨type.display, ⟨0, 0⟩⟩ = .ok u ∧
      u.same type = true := by
  have hparse : WrittenType.parse eventsText.value = .ok ⟨"Dictionary",
      [⟨"String", [], 0, ⟨11, 6⟩⟩, ⟨"Event", [], 1, ⟨19, 5⟩⟩], 0, ⟨0, 10⟩⟩ := by decide +kernel
  have hdisplay : ((Scope.ofManifest (declaring "Event")).resolve eventsText).toOption.map
      TypeRef.display = some "Dictionary<string, Event[]>" := by decide +kernel
  have hplain : ∀ e ∈ WrittenType.postorder ⟨"Dictionary",
        [⟨"String", [], 0, ⟨11, 6⟩⟩, ⟨"Event", [], 1, ⟨19, 5⟩⟩], 0, ⟨0, 10⟩⟩,
      (Vocabulary.ofManifest (declaring "Event")).external? e = none ∧
        ∀ c ∈ (Vocabulary.ofManifest (declaring "Event")).catalogued? e, e.name = c.fullName := by
    decide +kernel
  cases hresolve : (Scope.ofManifest (declaring "Event")).resolve eventsText with
  | error e =>
    rw [hresolve] at hdisplay
    cases hdisplay
  | ok type =>
    obtain ⟨u, hu, hsame⟩ := displayed_type_resolves hparse hresolve ⟨0, 0⟩
    rw [hresolve] at hdisplay
    refine ⟨type, u, rfl, Option.some.inj hdisplay, hu, hsame.2 fun e he => ?_⟩
    obtain ⟨hexternal, hcatalog⟩ := hplain e (WrittenType.mem_postorder_iff.2 he)
    exact Vocabulary.not_misnames (by simp [hexternal]) hcatalog

/-- Every type that can be written is displayed as a text that means it. -/
def Faithful (m : Manifest) : Prop :=
  ∀ q type span, (Scope.ofManifest m).resolve q = .ok type →
    ∃ u, (Scope.ofManifest m).resolve ⟨type.display, span⟩ = .ok u ∧ u.same type = true

/-- A manifest in which a text is shown as one for another type is not faithful. -/
lemma not_faithful {m : Manifest} (q : Quoted)
    (h : ((Scope.ofManifest m).resolve q).toOption.any (fun type =>
      ((Scope.ofManifest m).resolve ⟨type.display, q.span⟩).toOption.any fun u =>
        !u.same type) = true) : ¬m.Faithful := by
  intro hfaithful
  cases hresolve : (Scope.ofManifest m).resolve q with
  | error e =>
    rw [hresolve] at h
    cases h
  | ok type =>
    obtain ⟨u, hu, hsame⟩ := hfaithful q type q.span hresolve
    rw [hresolve] at h
    simp [Except.toOption, hu, hsame] at h

/-- Two valid manifests that have a type whose display means another one: a class hides an attribute
of the catalog that is written by its short name, and an array that is declared elsewhere is
displayed as one of objects. -/
theorem displayed_otherwise :
    (declaring "SerializableAttribute").validate = .ok () ∧
      ¬(declaring "SerializableAttribute").Faithful ∧
      (holding ⟨none, .arrayType, none⟩).validate = .ok () ∧
      ¬(holding ⟨none, .arrayType, none⟩).Faithful := by
  refine ⟨?_, not_faithful ⟨"Serializable", ⟨0, 0⟩⟩ ?_, ?_, not_faithful ⟨"Widget", ⟨0, 0⟩⟩ ?_⟩ <;>
    decide +kernel

end Manifest

end SharpSmith
