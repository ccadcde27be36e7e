import SharpSmith.Code.Layout
import SharpSmith.Proofs.Lines

/-!
# Printed source files

A source file prints as its fixed words and signs around names, types and fragments. When the names
are identifiers, the types are written as types, and the fragments are balanced tokens that were put
together, the layout of the file is tidy, so nothing but a fragment that has no tokens can keep the
printed file from being accepted.
-/

namespace SharpSmith.Code

open Fragment

/-- The fragments in an attribute: its arguments. -/
def Attribute.fragments (a : Attribute) : List String :=
  a.args.map Expression.text

/-- The fragments in a member: those of its attributes, what it passes to the base class, and the
statements of its body. -/
def Member.fragments : Member → List String
  | .property p => p.attributes.flatMap Attribute.fragments
  | .constructor c =>
    c.attributes.flatMap Attribute.fragments ++
      ((c.baseArgs.getD []).map Expression.text ++ c.body.map Statement.text)
  | .method m =>
    m.attributes.flatMap Attribute.fragments ++ (m.body.getD []).map Statement.text

/-- The fragments in a declaration. -/
def Declaration.fragments (d : Declaration) : List String :=
  d.attributes.flatMap Attribute.fragments ++ d.members.flatMap Member.fragments

/-- The fragments in a file. -/
def File.fragments (f : File) : List String :=
  f.declarations.flatMap Declaration.fragments

/-- An attribute whose name and arguments can be printed. -/
structure Attribute.Sound (a : Attribute) : Prop where
  name : Named a.name ∨ a.name = "[]"
  args : ∀ e ∈ a.args, IsFragment e.text

/-- A parameter whose name and type can be printed. -/
structure Parameter.Sound (p : Parameter) : Prop where
  type : Named p.type
  name : Named p.name

/-- A property whose name, type and attributes can be printed. -/
structure Property.Sound (p : Property) : Prop where
  attributes : ∀ a ∈ p.attributes, a.Sound
  type : Named p.type
  name : Named p.name

/-- A method all parts of which can be printed. -/
structure Method.Sound (m : Method) : Prop where
  attributes : ∀ a ∈ m.attributes, a.Sound
  returns : Named m.returns
  name : Named m.name
  parameters : ∀ p ∈ m.parameters, p.Sound
  body : ∀ s ∈ m.body.getD [], IsFragment s.text

/-- A constructor all parts of which can be printed. -/
structure Constructor.Sound (c : Constructor) : Prop where
  attributes : ∀ a ∈ c.attributes, a.Sound
  name : Named c.name
  parameters : ∀ p ∈ c.parameters, p.Sound
  baseArgs : ∀ e ∈ c.baseArgs.getD [], IsFragment e.text
  body : ∀ s ∈ c.body, IsFragment s.text

/-- What is required of a member. -/
def Member.Sound : Member → Prop
  | .property p => p.Sound
  | .constructor c => c.Sound
  | .method m => m.Sound

/-- A declaration all parts of which can be printed. -/
structure Declaration.Sound (d : Declaration) : Prop where
  attributes : ∀ a ∈ d.attributes, a.Sound
  name : Named d.name
  parameters : ∀ p ∈ d.parameters.getD [], p.Sound
  bases : ∀ b ∈ d.bases, Named b
  members : ∀ m ∈ d.members, m.Sound
  region : ∀ name ∈ d.region, ∀ c ∈ name.toList, c ≠ '\n'

/-- A file all parts of which can be printed. -/
structure File.Sound (f : File) : Prop where
  usings : ∀ u ∈ f.usings, Named u
  space : ∀ space ∈ f.space, Named space
  declarations : ∀ d ∈ f.declarations, d.Sound

/-- A word of the language. -/
lemma named_literal {s : String} (hstart : s.toList.head?.any Text.startsWord = true)
    (hrest : s.toList.tail.all Text.continuesWord = true) : Named s :=
  named_word (isWord_of_tests hstart hrest)

/-- The keyword of a modifier is read as a name is. -/
lemma named_modifier {m : Modifier} : Named m.keyword := by
  cases m <;> exact named_literal (by decide) (by decide)

/-- The keyword of a kind of declaration is read as a name is. -/
lemma named_kind {k : DeclarationKind} : Named k.keyword := by
  cases k <;> exact named_literal (by decide) (by decide)

/-- A name before a piece that a space sets off. -/
lemma reads_after_name {first p s t fs} (hs : Named s) (ht : Reads false p t fs) :
    Reads first p (s ++ " " ++ t) fs :=
  ((hs.reads first).space (by decide)).append ht fun _ _ => before_any

/-- Modifiers may stand before a piece with a token in front. -/
lemma reads_modifiers {p s fs} (ms : List Modifier) (h : Reads true p s fs) :
    Reads true p (modifierText ms ++ s) fs := by
  induction ms with
  | nil =>
    rw [modifierText, List.map_nil, String.join_nil, String.empty_append]
    exact h
  | cons m ms ih =>
    have htext : modifierText (m :: ms) ++ s = m.keyword ++ " " ++ (modifierText ms ++ s) := by
      rw [modifierText, List.map_cons, String.join_cons, String.append_assoc]
      rfl
    rw [htext]
    exact reads_after_name named_modifier ih.mid

/-- A group in parentheses may stand after a name. -/
lemma reads_call {first s p t fs} (hs : Reads first isEnd s []) (ht : Reads false p t fs)
    (hp : p ')' = true) : Reads first isAny (s ++ ("(" ++ t ++ ")")) fs := by
  refine hs.append (.group .parentheses ht ?_) fun r _ => ?_
  · rintro x ⟨⟩
    exact hp
  · rw [String.toList_append, String.toList_append, List.append_assoc, List.append_assoc]
    exact before_isEnd (by decide)

/-- The text of arguments holds their fragments. -/
lemma reads_arguments {es : List Expression} (h : ∀ e ∈ es, IsFragment e.text) :
    Reads false isSeal (argumentText es) (es.map Expression.text) := by
  have hall : ∀ s ∈ es.map Expression.text, Reads false isSeal s [s] := by
    intro s hs
    obtain ⟨e, he, rfl⟩ := List.mem_map.1 hs
    exact reads_fragment (h e he)
  have hjoin := Reads.join (by decide) hall
  rwa [List.flatMap_singleton'] at hjoin

/-- The text between the parentheses of a parameter list holds no fragment. -/
lemma reads_parameters {ps : List Parameter} (h : ∀ p ∈ ps, p.Sound) :
    Reads false isEnd (Text.join ", " (ps.map fun p => p.type ++ " " ++ p.name)) [] := by
  have hall : ∀ s ∈ ps.map fun p => p.type ++ " " ++ p.name, Reads false isEnd s [] := by
    intro s hs
    obtain ⟨p, hp, rfl⟩ := List.mem_map.1 hs
    exact reads_after_name (h p hp).type ((h p hp).name.reads false)
  have hjoin := Reads.join (by decide) hall
  rwa [List.flatMap_eq_nil_iff.2 fun _ _ => rfl] at hjoin

/-- A name with a parameter list after it holds no fragment. -/
lemma reads_signature {first s} {ps : List Parameter} (hs : Named s) (h : ∀ p ∈ ps, p.Sound) :
    Reads first isAny (s ++ parameterText ps) [] :=
  reads_call (hs.reads first) (reads_parameters h) (by decide)

/-- The colon before base types is read by itself. -/
lemma reads_colon : Reads false isAny " : " [] := by
  have hcolon : Reads false Text.isBlank ":" [] := by
    refine .token (.punctuator (by decide)) ⟨nofun, fun _ => by decide⟩
      fun r hr => ?_
    cases r with
    | nil => exact Ends.nil
    | cons x r => exact .blank (hr x rfl) nofun
  have h : Reads false isAny (" " ++ ":" ++ " ") [] :=
    (reads_space.append_plain hcolon fun _ _ => before_any).space (by decide)
  rwa [show " " ++ ":" ++ " " = " : " by decide] at h

/-- The layout of an attribute holds its arguments. -/
lemma tidy_attribute {a : Attribute} (h : a.Sound) : Tidy [a.layout] a.fragments := by
  have hname : Reads false isEnd a.name [] := by
    rcases h.name with hn | hn
    · exact hn.reads false
    · rw [hn, ← show "[" ++ "" ++ "]" = "[]" by decide]
      exact (Reads.group .brackets (p := isAny) .empty before_any).mono fun _ _ => rfl
  have hinner : Reads false isEnd
      (if a.args.isEmpty then a.name else a.name ++ "(" ++ argumentText a.args ++ ")")
      a.fragments := by
    split
    case isTrue he =>
      rw [Attribute.fragments, List.isEmpty_iff.1 he]
      exact hname
    case isFalse =>
      have htext : a.name ++ "(" ++ argumentText a.args ++ ")" =
          a.name ++ ("(" ++ argumentText a.args ++ ")") := by
        simp only [String.append_assoc]
      rw [htext]
      exact (reads_call hname (reads_arguments h.args) (by decide)).mono fun _ _ => rfl
  refine .line ((Reads.group .brackets hinner ?_).line rfl)
  rintro x ⟨⟩
  decide

/-- What stands above a declaration or member holds the arguments of its attributes. -/
lemma tidy_leading {doc} {as : List Attribute} (h : ∀ a ∈ as, a.Sound) :
    Tidy (leading doc as) (as.flatMap Attribute.fragments) := by
  have hdoc : Tidy (doc.toList.map Layout.doc) [] := by
    cases doc with
    | none => exact .nil
    | some text => exact .doc
  exact hdoc.append (.map fun a ha => tidy_attribute (h a ha))

/-- The layout of a body holds its statements. -/
lemma tidy_body {body : List Statement} (h : ∀ s ∈ body, IsFragment s.text) :
    Tidy (bodyLayout body) (body.map Statement.text) := by
  have hlines : Tidy (body.map fun s => .line s.text) (body.flatMap fun s => [s.text]) := by
    refine .map fun s hs => .line ?_
    exact (reads_fragment (h s hs)).line (by decide)
  rwa [← List.map_eq_flatMap] at hlines

/-- The text of accessors holds no fragment. -/
lemma reads_accessors {as : List Accessor} :
    Reads false isAny (String.join (as.map fun a => a.text ++ "; ")) [] := by
  have hone : ∀ a : Accessor, Reads false isEnd a.text [] := by
    intro a
    cases a with
    | privateSet =>
      have hprivate : Named "private" := named_literal (by decide) (by decide)
      have hset : Named "set" := named_literal (by decide) (by decide)
      have h : Reads false isEnd ("private" ++ " " ++ "set") [] :=
        reads_after_name hprivate (hset.reads false)
      rwa [show "private" ++ " " ++ "set" = Accessor.privateSet.text by decide] at h
    | get | set | init =>
      exact (named_literal (by decide) (by decide) : Named _).reads false
  have hend : Reads false isAny "; " [] := by
    have h : Reads false isAny (";" ++ " ") [] :=
      (reads_lone (by decide) (by decide) : Reads false isAny ";" []).space rfl
    rwa [show ";" ++ " " = "; " by decide] at h
  induction as with
  | nil =>
    rw [List.map_nil, String.join_nil]
    exact .empty
  | cons a as ih =>
    rw [List.map_cons, String.join_cons]
    refine ((hone a).append_plain hend fun r _ => ?_).append ih fun r _ => before_any
    exact before_isEnd (by decide)

/-- The layout of a property holds the fragments of the property. -/
lemma tidy_property {p : Property} (h : p.Sound) :
    Tidy p.layout (p.attributes.flatMap Attribute.fragments) := by
  have hbody : Reads false isAny ("\x7b" ++ (" " ++ String.join
      (p.accessors.map fun a => a.text ++ "; ")) ++ "\x7d") [] :=
    .group .braces (reads_space.append reads_accessors fun _ _ => before_any) before_any
  have hline := reads_modifiers p.modifiers
    (reads_after_name h.type (reads_after_name h.name hbody))
  have htext : modifierText p.modifiers ++ p.type ++ " " ++ p.name ++ " \x7b " ++
      String.join (p.accessors.map fun a => a.text ++ "; ") ++ "\x7d" =
      modifierText p.modifiers ++ (p.type ++ " " ++ (p.name ++ " " ++ ("\x7b" ++ (" " ++
        String.join (p.accessors.map fun a => a.text ++ "; ")) ++ "\x7d"))) := by
    rw [show " \x7b " = " " ++ ("\x7b" ++ " ") by decide]
    simp only [String.append_assoc]
  rw [← htext] at hline
  have h' := (tidy_leading h.attributes : Tidy (leading p.doc p.attributes) _).append
    (.line (hline.line rfl))
  rwa [List.append_nil] at h'

/-- The layout of a method holds the fragments of the method. -/
lemma tidy_method {m : Method} (h : m.Sound) :
    Tidy m.layout (Member.method m).fragments := by
  have hline := reads_modifiers m.modifiers
    (reads_after_name h.returns (reads_signature h.name h.parameters))
  have htext :
      modifierText m.modifiers ++ m.returns ++ " " ++ m.name ++ parameterText m.parameters =
        modifierText m.modifiers ++
          (m.returns ++ " " ++ (m.name ++ parameterText m.parameters)) := by
    simp only [String.append_assoc]
  rw [← htext] at hline
  refine (tidy_leading h.attributes).append ?_
  have hbody := h.body
  cases hb : m.body with
  | some body =>
    rw [hb] at hbody
    exact .block (hline.line rfl) (tidy_body hbody)
  | none =>
    refine .line (Reads.line (p := isAny) ?_ rfl)
    exact hline.append_plain (reads_lone (by decide) (by decide)) fun r _ => before_any

/-- The layout of a constructor holds the fragments of the constructor. -/
lemma tidy_constructor {c : Constructor} (h : c.Sound) :
    Tidy c.layout (Member.constructor c).fragments := by
  have hhead : Reads true isAny (modifierText c.modifiers ++ c.name ++ parameterText c.parameters)
      [] := by
    rw [String.append_assoc]
    exact reads_modifiers c.modifiers (reads_signature h.name h.parameters)
  refine (tidy_leading h.attributes).append (.block (Reads.line (p := isAny) ?_ rfl)
    (tidy_body h.body))
  have hargs := h.baseArgs
  cases hb : c.baseArgs with
  | none => exact hhead.append .empty fun r _ => before_any
  | some args =>
    rw [hb, Option.getD_some] at hargs
    have hbase : Named "base" := named_literal (by decide) (by decide)
    have hcall := reads_colon.append
      (reads_call (hbase.reads false) (reads_arguments hargs) (by decide))
      fun r _ => before_any
    have htext : " : base(" ++ argumentText args ++ ")" =
        " : " ++ ("base" ++ ("(" ++ argumentText args ++ ")")) := by
      rw [show " : base(" = " : " ++ ("base" ++ "(") by decide]
      simp only [String.append_assoc]
    rw [← htext] at hcall
    exact hhead.append hcall fun r _ => before_any

/-- The layout of a member holds the fragments of the member. -/
lemma tidy_member {m : Member} (h : m.Sound) : Tidy m.layout m.fragments := by
  cases m with
  | property p => exact tidy_property h
  | constructor c => exact tidy_constructor h
  | method m => exact tidy_method h

/-- The header of a declaration holds no fragment. -/
lemma reads_header {d : Declaration} (h : d.Sound) : Reads true isEnd d.header [] := by
  -- nothing, or what ends itself, stands between the name and the colon
  have hname : Reads false isEnd (d.name ++ (d.parameters.map parameterText).getD "") [] := by
    have hparameters := h.parameters
    cases hp : d.parameters with
    | none =>
      rw [Option.map_none, Option.getD_none, String.append_empty]
      exact h.name.reads false
    | some ps =>
      rw [hp] at hparameters
      exact (reads_signature h.name hparameters).mono fun _ _ => rfl
  have hbases : Reads false isEnd (if d.bases.isEmpty then "" else " : " ++ Text.join ", " d.bases)
      [] := by
    split
    case isTrue => exact .empty
    case isFalse =>
      have hjoin : Reads false isEnd (Text.join ", " d.bases) (d.bases.flatMap fun _ => []) :=
        .join (by decide) fun b hb => (h.bases b hb).reads false
      rw [List.flatMap_eq_nil_iff.2 fun _ _ => rfl] at hjoin
      exact reads_colon.append hjoin fun r _ => before_any
  have hrest := hname.append_plain hbases fun r hr => by
    split
    case isTrue => exact hr
    case isFalse =>
      rw [String.toList_append]
      exact before_isEnd (by decide)
  have htext : d.header = modifierText d.modifiers ++ (d.kind.keyword ++ " " ++ (d.name ++
      (d.parameters.map parameterText).getD "" ++
      (if d.bases.isEmpty then "" else " : " ++ Text.join ", " d.bases))) := by
    rw [Declaration.header]
    simp only [String.append_assoc]
  rw [htext]
  exact reads_modifiers d.modifiers (reads_after_name named_kind hrest)

/-- The layout of a declaration holds the fragments of the declaration. -/
lemma tidy_declaration {d : Declaration} (h : d.Sound) : Tidy d.layout d.fragments := by
  have hheader := reads_header h
  have hbare : Tidy d.bare d.fragments := by
    refine (tidy_leading h.attributes).append ?_
    split
    case isTrue hr =>
      simp only [Bool.and_eq_true, List.isEmpty_iff] at hr
      rw [hr.2]
      refine .line (Reads.line (p := isAny) ?_ rfl)
      refine hheader.append_plain (reads_lone (by decide) (by decide)) fun r _ => ?_
      exact before_isEnd (by decide)
    case isFalse =>
      exact .block (hheader.line (by decide))
        (.separated fun m hm => tidy_member (h.members m hm))
  unfold Declaration.layout
  split
  case h_1 name hregion => exact .region (h.region name hregion) hbare
  case h_2 => exact hbare

/-- What stands after a fixed word and ends with a semicolon is a line. -/
lemma line_directive {word s} (hw : Named word) (hs : Named s) :
    Line (word ++ " " ++ s ++ ";") [] := by
  have h : Reads true isEnd (word ++ " " ++ s) [] := reads_after_name hw (hs.reads false)
  refine Reads.line (p := isAny)
    (h.append_plain (reads_lone (by decide) (by decide)) fun r _ => ?_) rfl
  exact before_isEnd (by decide)

/-- The layout of a file holds the fragments of the file. -/
lemma tidy_file {f : File} (h : f.Sound) : Tidy f.layout f.fragments := by
  have husing : Named "using" := named_literal (by decide) (by decide)
  have hnamespace : Named "namespace" := named_literal (by decide) (by decide)
  have hdeclarations :
      Tidy (Layout.separated (f.declarations.map Declaration.layout)) f.fragments :=
    .separated fun d hd => tidy_declaration (h.declarations d hd)
  have husings : Tidy (f.usings.map fun u => .line ("using " ++ u ++ ";")) [] := by
    have hall : Tidy (f.usings.map fun u => .line ("using " ++ u ++ ";"))
        (f.usings.flatMap fun _ => []) := by
      refine .map fun u hu => .line ?_
      rw [show "using " = "using" ++ " " by decide]
      exact line_directive husing (h.usings u hu)
    rwa [List.flatMap_eq_nil_iff.2 fun _ _ => rfl] at hall
  have hbody : Tidy f.body f.fragments := by
    have hspace := h.space
    unfold File.body
    split
    case h_1 => exact hdeclarations
    case h_2 space hs _ =>
      have hline := line_directive hnamespace (hspace space hs)
      rw [← show "namespace " = "namespace" ++ " " by decide] at hline
      exact (Tidy.nil.separate (.line hline)).separate hdeclarations
    case h_3 space hs _ =>
      have hline : Reads true isEnd ("namespace" ++ " " ++ space) [] :=
        reads_after_name hnamespace ((hspace space hs).reads false)
      rw [← show "namespace " = "namespace" ++ " " by decide] at hline
      exact .block (hline.line (by decide)) hdeclarations
  exact (Tidy.nil.separate husings).separate hbody

/-- The arguments of sound attributes are fragments. -/
lemma Attribute.isFragment {as : List Attribute} (h : ∀ a ∈ as, a.Sound) :
    ∀ text ∈ as.flatMap Attribute.fragments, IsFragment text := by
  intro text ht
  obtain ⟨a, ha, ht⟩ := List.mem_flatMap.1 ht
  obtain ⟨e, he, rfl⟩ := List.mem_map.1 ht
  exact (h a ha).args e he

/-- The fragments of a sound member are fragments that were read. -/
lemma Member.Sound.isFragment {m : Member} (h : m.Sound) :
    ∀ text ∈ m.fragments, IsFragment text := by
  cases m with
  | property p =>
    have hp : p.Sound := h
    exact Attribute.isFragment hp.attributes
  | constructor c =>
    have hc : c.Sound := h
    simp only [Member.fragments, List.forall_mem_append, List.forall_mem_map]
    exact ⟨Attribute.isFragment hc.attributes, hc.baseArgs, hc.body⟩
  | method m =>
    have hm : m.Sound := h
    simp only [Member.fragments, List.forall_mem_append, List.forall_mem_map]
    exact ⟨Attribute.isFragment hm.attributes, hm.body⟩

/-- The fragments of a sound file are balanced tokens that were put together. -/
lemma File.Sound.isFragment {f : File} (h : f.Sound) :
    ∀ text ∈ f.fragments, IsFragment text := by
  intro text ht
  obtain ⟨d, hd, ht⟩ := List.mem_flatMap.1 ht
  have hsound := h.declarations d hd
  rcases List.mem_append.1 ht with ht | ht
  · exact Attribute.isFragment hsound.attributes text ht
  · obtain ⟨m, hm, ht⟩ := List.mem_flatMap.1 ht
    exact (hsound.members m hm).isFragment text ht

/-- A printed file whose names, types and fragments are sound is accepted just if all its fragments
have tokens. -/
theorem File.Sound.verify_iff {f : File} (h : f.Sound) {indent} :
    Source.verify (f.render indent) = .ok () ↔ ∀ text ∈ f.fragments, Lexes text :=
  (tidy_file h).verify_iff

end SharpSmith.Code
