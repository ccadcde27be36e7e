import SharpSmith.Proofs.Positions
import SharpSmith.Proofs.TypeGrammar
import SharpSmith.Proofs.TypeNames

/-!
# Types that mean nothing

A written type means a type just if every part of it has a name that means one with its number of
arguments. Else the first part that has none is reported, the parts of arguments before the type
they are applied to. Where the text stands in quotes on one line, the place that is reported is that
of the name of this part in the document.
-/

namespace SharpSmith

namespace WrittenType

/-- What holds of a type when it holds of its arguments holds of every type. -/
lemma induction {p : WrittenType → Prop} (h : ∀ e, (∀ a ∈ e.args, p a) → p e) (e : WrittenType) :
    p e :=
  @WrittenType.rec p (fun es => ∀ a ∈ es, p a) (fun name args rank span ih =>
    h ⟨name, args, rank, span⟩ ih) (by simp)
    (fun _ _ ha has => List.forall_mem_cons.2 ⟨ha, has⟩) e

mutual

/-- The parts of a type: those of its arguments from left to right, then the type itself. -/
def postorder : WrittenType → List WrittenType
  | ⟨name, args, rank, span⟩ => postorderAll args ++ [⟨name, args, rank, span⟩]

/-- The parts of several types. -/
def postorderAll : List WrittenType → List WrittenType
  | [] => []
  | e :: es => postorder e ++ postorderAll es

end

/-- The parts of a type in post-order are those of its arguments and then the type. -/
lemma postorder_eq (e : WrittenType) : e.postorder = postorderAll e.args ++ [e] := by
  cases e
  rw [postorder]

/-- A part of several types is a part of one of them. -/
lemma mem_postorderAll {es : List WrittenType} {n} :
    n ∈ postorderAll es ↔ ∃ e ∈ es, n ∈ e.postorder := by
  induction es with
  | nil => simp [postorderAll]
  | cons e es ih => simp [postorderAll, ih]

/-- A list of the parts of a type holds these and nothing else. -/
lemma mem_postorder_iff {e n : WrittenType} : n ∈ e.postorder ↔ Part n e := by
  constructor
  · induction e using induction with
    | h e ih =>
      rw [postorder_eq, List.mem_append, mem_postorderAll, List.mem_singleton]
      rintro (⟨a, ha, hn⟩ | rfl)
      · exact .arg ha (ih a ha hn)
      · exact .self
  · intro h
    induction h with
    | self =>
      rw [postorder_eq]
      simp
    | arg ha _ ih =>
      rw [postorder_eq, List.mem_append, mem_postorderAll]
      exact .inl ⟨_, ha, ih⟩

end WrittenType

namespace Vocabulary

variable {t : Vocabulary}

/-- Whether a name means a type with the given number of arguments: a built-in type, which takes
none, a declaration, a type declared elsewhere, or a type of the catalog. -/
def means (t : Vocabulary) (name : String) (arity : Nat) : Bool :=
  arity == 0 && BuiltIn.all.any (fun b => b.keyword == name || b.runtimeName == name) ||
    t.declared.any (fun d => d.1 == name) ||
    t.external.entries.any (fun e => e.1 == name) ||
    Catalog.entries.any (fun c => c.names.contains name && c.arity == arity)

/-- A part of a type that has no meaning. -/
def isUnknown (t : Vocabulary) (n : WrittenType) : Bool :=
  !t.means n.name n.args.length

/-- A name means a built-in type just if it has no arguments and is a keyword or runtime name. -/
lemma isSome_builtIn (name : String) (args : List TypeRef) :
    (if args.isEmpty then BuiltIn.ofName? name else none).isSome =
      (args.length == 0 &&
        BuiltIn.all.any (fun b => b.keyword == name || b.runtimeName == name)) := by
  cases args with
  | nil => simp [BuiltIn.ofName?, List.isSome_find?]
  | cons => simp

/-- A name is found just if it has a meaning with this number of arguments. -/
lemma isSome_lookup? (name : String) (args : List TypeRef) :
    (t.lookup? name args).isSome = t.means name args.length := by
  unfold means
  rw [← isSome_builtIn]
  unfold lookup?
  cases hb : (if args.isEmpty then BuiltIn.ofName? name else none) with
  | some b => simp
  | none =>
    have hdeclared : (t.declared? name).isSome = t.declared.any (fun d => d.1 == name) := by
      simp [declared?, List.isSome_find?]
    have hexternal : (t.external.get? name).isSome =
        t.external.entries.any (fun e => e.1 == name) := by
      simp [ExternalTypes.get?, List.isSome_find?]
    rw [← hdeclared, ← hexternal]
    cases t.declared? name with
    | some kind => simp
    | none =>
      cases t.external.get? name with
      | some x => simp
      | none =>
        simp only [Catalog.lookup?, hb]
        simp [List.isSome_find?]

/-- Types mean nothing just if one of their parts has no meaning. The first one is reported. -/
lemma resolveAll_eq_error_iff {es : List WrittenType} {n}
    (h : ∀ e ∈ es, ∀ n, t.resolve e = .error n ↔ e.postorder.find? t.isUnknown = some n) :
    t.resolveAll es = .error n ↔ (WrittenType.postorderAll es).find? t.isUnknown = some n := by
  induction es with
  | nil => simp [resolveAll, WrittenType.postorderAll]
  | cons e es ih =>
    obtain ⟨he, hes⟩ := List.forall_mem_cons.1 h
    rw [resolveAll, WrittenType.postorderAll, List.find?_append]
    cases hresolve : t.resolve e with
    | error u =>
      rw [(he u).1 hresolve]
      simp
    | ok type =>
      have hnone : e.postorder.find? t.isUnknown = none := by
        rw [Option.eq_none_iff_forall_not_mem]
        intro u hu
        rw [(he u).2 hu] at hresolve
        cases hresolve
      rw [hnone, Option.none_or, ← ih hes]
      dsimp only
      cases t.resolveAll es <;> simp

/-- A type means nothing just if one of its parts has no meaning. The first one is reported. -/
lemma resolve_eq_error_iff {e n : WrittenType} :
    t.resolve e = .error n ↔ e.postorder.find? t.isUnknown = some n := by
  induction e using WrittenType.induction generalizing n with
  | h e ih =>
    have hargs {u} : t.resolveAll e.args = .error u ↔ _ := resolveAll_eq_error_iff ih
    obtain ⟨name, args, rank, span⟩ := e
    rw [resolve, WrittenType.postorder, List.find?_append]
    -- the arguments come first, also where the type itself has no meaning
    cases hresolve : t.resolveAll args with
    | error u =>
      rw [hargs.1 hresolve]
      simp
    | ok types =>
      have hnone : (WrittenType.postorderAll args).find? t.isUnknown = none := by
        rw [Option.eq_none_iff_forall_not_mem]
        intro u hu
        rw [hargs.2 hu] at hresolve
        cases hresolve
      have hmeans : (t.lookup? name types).isSome = t.means name args.length := by
        rw [isSome_lookup?, (forall₂_of_resolveAll hresolve).length_eq]
      have hlast : t.isUnknown ⟨name, args, rank, span⟩ = (t.lookup? name types).isNone := by
        rw [isUnknown, ← hmeans, Option.not_isSome]
      rw [hnone, Option.none_or, List.find?_singleton, hlast]
      dsimp only
      cases t.lookup? name types <;> simp

end Vocabulary

namespace Document

/-- A text is written on one line of a document: its characters stand between two quotes. -/
def Quotes (d : Document) (q : Quoted) : Prop :=
  ∃ before quote after, (quote = '"' ∨ quote = '\'') ∧
    d.text.toList = before ++ (quote :: (q.value.toList ++ [quote]) ++ after) ∧
    q.span = ⟨Text.byteLength before, Text.byteLength q.value.toList + 2⟩

/-- A part of a document is what its place covers. -/
lemma slice?_part {d : Document} {before part after : List Char}
    (h : d.text.toList = before ++ (part ++ after)) :
    d.slice? ⟨Text.byteLength before, Text.byteLength part⟩ = some part := by
  rw [slice?, h, Text.dropBytes?_append, Option.bind_some, Text.takeBytes?_append]

/-- A text in quotes that does not start with a quote is one on a line. -/
lemma isQuoted_wrap {quote : Char} {cs : List Char} (hq : quote = '"' ∨ quote = '\'')
    (hcs : ∀ c ∈ cs.head?, c ≠ '"' ∧ c ≠ '\'') (hne : cs ≠ []) :
    isQuoted (quote :: (cs ++ [quote])) = true := by
  cases cs with
  | nil => exact absurd rfl hne
  | cons c cs =>
    obtain ⟨hd, hs⟩ := hcs c rfl
    have hlast : (quote :: (c :: cs ++ [quote])).getLast? = some quote := by
      rw [← List.cons_append, List.getLast?_concat]
    rw [isQuoted, hlast]
    rcases hq with rfl | rfl <;>
      simp [List.isPrefixOf, Ne.symm hd, Ne.symm hs]

/-- The place of a text in quotes is that of its characters. -/
lemma valueSpan_of_quotes {d : Document} {q : Quoted} {before quote after}
    (hq : quote = '"' ∨ quote = '\'')
    (htext : d.text.toList = before ++ (quote :: (q.value.toList ++ [quote]) ++ after))
    (hspan : q.span = ⟨Text.byteLength before, Text.byteLength q.value.toList + 2⟩)
    (hcs : ∀ c ∈ q.value.toList.head?, c ≠ '"' ∧ c ≠ '\'') (hne : q.value.toList ≠ []) :
    d.valueSpan q.span =
      ⟨Text.byteLength (before ++ [quote]), Text.byteLength q.value.toList⟩ := by
  have hsize : quote.utf8Size = 1 := by rcases hq with rfl | rfl <;> decide
  have hwidth : Text.byteLength (quote :: (q.value.toList ++ [quote])) =
      Text.byteLength q.value.toList + 2 := by
    rw [Text.byteLength, Text.byteLength_append, Text.byteLength, Text.byteLength, hsize]
    omega
  rw [hspan, valueSpan, ← hwidth, slice?_part htext]
  dsimp only
  rw [isQuoted_wrap hq hcs hne, if_pos rfl, hwidth, Text.byteLength_append, Text.byteLength,
    Text.byteLength, hsize]
  rfl

end Document

namespace WrittenType

/-- A text that writes a type starts with white space or with a name. -/
lemma Spells.starts {offset t w e} (h : Spells offset t e) :
    t ++ w ≠ [] ∧ ∀ c ∈ (t ++ w).head?, Text.isBlank c = true ∨ Text.continuesWord c = true := by
  cases h with
  | @mk _ v n us args ds rank hv hn hargs hds =>
    obtain ⟨hne, hword, -⟩ := hn
    cases v with
    | cons c v => exact ⟨by simp, by simp [hv c (.head _)]⟩
    | nil =>
      cases n with
      | nil => exact absurd rfl hne
      | cons c n => exact ⟨by simp, by simp [hword c (.head _)]⟩

/-- A text that is read as a type does not start with a quote. -/
lemma head_of_parse {text : String} {e} (h : parse text = .ok e) :
    text.toList ≠ [] ∧ ∀ c ∈ text.toList.head?, c ≠ '"' ∧ c ≠ '\'' := by
  obtain ⟨t, w, ht, hspells, -⟩ := parse_eq_ok_iff.1 h
  rw [ht]
  refine ⟨hspells.starts.1, fun c hc => ?_⟩
  have hstart := hspells.starts.2 c hc
  constructor <;> (rintro rfl; revert hstart; decide)

end WrittenType

namespace Manifest

/-- The place of a text in quotes selects its characters. -/
lemma slice?_placeOf {m : Manifest} {q : Quoted} {e} (hparse : WrittenType.parse q.value = .ok e)
    (hquotes : m.document.Quotes q) :
    ∃ before after, m.document.text.toList = before ++ (q.value.toList ++ after) ∧
      (Scope.ofManifest m).placeOf q =
        ⟨Text.byteLength before, Text.byteLength q.value.toList⟩ := by
  obtain ⟨before, quote, after, hq, htext, hspan⟩ := hquotes
  obtain ⟨hne, hhead⟩ := WrittenType.head_of_parse hparse
  refine ⟨before ++ [quote], quote :: after, ?_,
    Document.valueSpan_of_quotes hq htext hspan hhead hne⟩
  rw [htext]
  simp

/-- A name in a text that stands in quotes is selected by its place in the document. -/
lemma slice?_name {m : Manifest} {q : Quoted} {e n} (hparse : WrittenType.parse q.value = .ok e)
    (hquotes : m.document.Quotes q) (hn : WrittenType.Named q.value n) :
    m.document.slice? (n.span.shift ((Scope.ofManifest m).placeOf q).offset) =
      some n.name.toList := by
  obtain ⟨before, after, htext, hplace⟩ := slice?_placeOf hparse hquotes
  obtain ⟨front, back, hvalue, hfront, hname, -, -⟩ := hn
  have hspan : n.span.shift (Text.byteLength before) =
      ⟨Text.byteLength (before ++ front.toList), Text.byteLength n.name.toList⟩ := by
    rw [Span.shift, ← hfront, ← hname, ← Text.byteLength_toList front,
      ← Text.byteLength_toList n.name, ← Text.byteLength_append]
  have hpart : m.document.text.toList =
      before ++ front.toList ++ (n.name.toList ++ (back.toList ++ after)) := by
    rw [htext, hvalue]
    simp
  rw [hplace, hspan]
  exact Document.slice?_part hpart

/-- A text that is read as a type means none just if some part of it has no meaning. -/
lemma resolve_eq_error_iff {m : Manifest} {q : Quoted} {e err}
    (hparse : WrittenType.parse q.value = .ok e) :
    (Scope.ofManifest m).resolve q = .error err ↔
      ∃ n, e.postorder.find? (Vocabulary.ofManifest m).isUnknown = some n ∧
        err = .unknownType n.name (n.span.shift ((Scope.ofManifest m).placeOf q).offset) := by
  have hfind {n} : (Scope.ofManifest m).types.resolve e = .error n ↔
      e.postorder.find? (Vocabulary.ofManifest m).isUnknown = some n :=
    Vocabulary.resolve_eq_error_iff
  rw [Scope.resolve, hparse]
  dsimp only
  simp only [← hfind]
  cases (Scope.ofManifest m).types.resolve e with
  | error n => simp [eq_comm]
  | ok t => simp

/-- A text that is read as a type means one unless some part of the type has a name that means
none with its number of arguments. What is reported is the first of these parts, those of arguments
before the type that they are applied to; and where the text stands in quotes on one line of the
document, the label selects the name of that part. -/
theorem unknown_type_reported {m : Manifest} {q : Quoted} {e : WrittenType}
    (hparse : WrittenType.parse q.value = .ok e) :
    ((∃ err, (Scope.ofManifest m).resolve q = .error err) ↔
      ∃ n, WrittenType.Part n e ∧
        (Vocabulary.ofManifest m).means n.name n.args.length = false) ∧
    ∀ err, (Scope.ofManifest m).resolve q = .error err →
      ∃ before n after, e.postorder = before ++ n :: after ∧
        (∀ b ∈ before, (Vocabulary.ofManifest m).means b.name b.args.length = true) ∧
        (Vocabulary.ofManifest m).means n.name n.args.length = false ∧
        err = .unknownType n.name (n.span.shift ((Scope.ofManifest m).placeOf q).offset) ∧
        WrittenType.Named q.value n ∧
        (m.document.Quotes q →
          m.document.slice? ((Scope.ofManifest m).placeOf q) = some q.value.toList ∧
          ∀ l ∈ err.diagnosis.labels, m.document.slice? l.1 = some n.name.toList) := by
  constructor
  · simp only [resolve_eq_error_iff hparse]
    constructor
    · rintro ⟨err, n, hfind, -⟩
      refine ⟨n, WrittenType.mem_postorder_iff.1 (List.mem_of_find?_eq_some hfind), ?_⟩
      simpa [Vocabulary.isUnknown] using List.find?_some hfind
    · rintro ⟨n, hpart, hunknown⟩
      have hsome : (e.postorder.find? (Vocabulary.ofManifest m).isUnknown).isSome = true := by
        rw [List.find?_isSome]
        exact ⟨n, WrittenType.mem_postorder_iff.2 hpart, by simp [Vocabulary.isUnknown, hunknown]⟩
      obtain ⟨u, hu⟩ := Option.isSome_iff_exists.1 hsome
      exact ⟨_, u, hu, rfl⟩
  · intro err herr
    obtain ⟨n, hfind, rfl⟩ := (resolve_eq_error_iff hparse).1 herr
    obtain ⟨hunknown, before, after, horder, hbefore⟩ := List.find?_eq_some_iff_append.1 hfind
    have hpart : WrittenType.Part n e := by
      rw [← WrittenType.mem_postorder_iff, horder]
      simp
    have hnamed := (WrittenType.occurs_of_parse hparse hpart).named
    refine ⟨before, n, after, horder, fun b hb => ?_, ?_, rfl, hnamed, fun hquotes => ⟨?_, ?_⟩⟩
    · simpa [Vocabulary.isUnknown] using hbefore b hb
    · simpa [Vocabulary.isUnknown] using hunknown
    · obtain ⟨front, back, htext, hplace⟩ := slice?_placeOf hparse hquotes
      rw [hplace]
      exact Document.slice?_part htext
    · intro l hl
      obtain rfl := List.mem_singleton.1 hl
      exact slice?_name hparse hquotes hnamed

/-- A manifest of one class whose document writes a type, and that text. -/
def mapping : Manifest :=
  { declaring "Map" with document := ⟨"type = \"Map<Task[], Task<Größe>, Nope>\"\n", "app.toml"⟩ }

/-- A type text of this manifest. -/
def mapText : Quoted :=
  ⟨"Map<Task[], Task<Größe>, Nope>", ⟨7, 34⟩⟩

/-- Of two parts that have no meaning the first one is reported: it stands in type arguments, after
others that mean something, and its name is selected in the document. -/
theorem unknown_type_reported_umlaut :
    (∃ e n, WrittenType.parse mapText.value = .ok e ∧ WrittenType.Part n e ∧
      (Vocabulary.ofManifest mapping).means n.name n.args.length = false) ∧
    (Scope.ofManifest mapping).resolve mapText = .error (.unknownType "Größe" ⟨25, 7⟩) ∧
    mapping.document.Quotes mapText ∧
    mapping.document.slice? ⟨25, 7⟩ = some "Größe".toList := by
  have hparse : WrittenType.parse mapText.value = .ok ⟨"Map",
      [⟨"Task", [], 1, ⟨4, 4⟩⟩, ⟨"Task", [⟨"Größe", [], 0, ⟨17, 7⟩⟩], 0, ⟨12, 4⟩⟩,
        ⟨"Nope", [], 0, ⟨27, 4⟩⟩], 0, ⟨0, 3⟩⟩ := by decide +kernel
  have hresolve : (Scope.ofManifest mapping).resolve mapText =
      .error (.unknownType "Größe" ⟨25, 7⟩) := by
    refine (resolve_eq_error_iff hparse).2 ⟨⟨"Größe", [], 0, ⟨17, 7⟩⟩, ?_, ?_⟩
    · have hknown : (Vocabulary.ofManifest mapping).means "Task" 0 = true := by decide +kernel
      have hunknown : (Vocabulary.ofManifest mapping).means "Größe" 0 = false := by
        decide +kernel
      simp [WrittenType.postorder, WrittenType.postorderAll, Vocabulary.isUnknown, hknown,
        hunknown]
    · have hplace : ((Scope.ofManifest mapping).placeOf mapText).offset = 8 := by decide +kernel
      rw [hplace]
      rfl
  have hquotes : mapping.document.Quotes mapText := by
    refine ⟨"type = ".toList, '"', ['\n'], .inl rfl, ?_, ?_⟩ <;> decide
  obtain ⟨hfails, hreport⟩ := unknown_type_reported hparse
  obtain ⟨n, hpart, hunknown⟩ := hfails.1 ⟨_, hresolve⟩
  refine ⟨⟨_, n, hparse, hpart, hunknown⟩, hresolve, hquotes, ?_⟩
  obtain ⟨_, u, _, -, -, -, herr, -, hlabel⟩ := hreport _ hresolve
  have hslice := (hlabel hquotes).2 (⟨25, 7⟩, _) (.head _)
  rw [← (ManifestError.unknownType.inj herr).1] at hslice
  exact hslice

end Manifest

end SharpSmith
