import SharpSmith.Proofs.Building
import SharpSmith.Proofs.LineGroups

/-!
# The lines of a source file

The layout of a source file has only lines, blank lines, comments, blocks and regions, and each part
of it is orderly when no text in it has a line break. So a line of the printed file stands as deep
as there are blocks around it, and blank lines stand between groups of lines only
(`layout_follows_nesting`).
-/

namespace SharpSmith

/-- The statement was read from a text, as every statement is. -/
def Statement.WasRead (s : Statement) : Prop :=
  ∃ text, parse text = .ok s

namespace Fragment

/-- The first character of a fragment is not white space. -/
lemma IsFragment.not_blank {text} (h : IsFragment text) : ¬Text.Blank text.toList := by
  obtain ⟨ts, hne, hs, -, rfl⟩ := h
  obtain ⟨t, us, rfl⟩ := List.exists_cons_of_ne_nil hne
  have ht := (hs t (.head _)).1
  obtain ⟨c, w, hw⟩ := ht.exists_cons
  obtain ⟨rest, hrest⟩ := exists_joinTokens_cons hw us
  rw [hw] at ht
  rw [hrest]
  exact fun hblank => Bool.false_ne_true (ht.isBlank.symm.trans (hblank c (.head _)))

end Fragment

namespace Code

/-- The statements of a member. -/
def Member.statements : Member → List Statement
  | .property _ => []
  | .constructor c => c.body
  | .method m => m.body.getD []

/-- The statements of a file. -/
def File.statements (f : File) : List Statement :=
  f.declarations.flatMap fun d => d.members.flatMap Member.statements

/-- No text of an attribute has a line break. -/
structure Attribute.Unbroken (a : Attribute) : Prop where
  name : Text.Unbroken a.name
  args : ∀ e ∈ a.args, Text.Unbroken e.text

/-- No text of a parameter has a line break. -/
structure Parameter.Unbroken (p : Parameter) : Prop where
  type : Text.Unbroken p.type
  name : Text.Unbroken p.name

/-- No text of a property has a line break, its documentation aside. -/
structure Property.Unbroken (p : Property) : Prop where
  attributes : ∀ a ∈ p.attributes, a.Unbroken
  type : Text.Unbroken p.type
  name : Text.Unbroken p.name

/-- No text of a method has a line break, its documentation aside. -/
structure Method.Unbroken (m : Method) : Prop where
  attributes : ∀ a ∈ m.attributes, a.Unbroken
  returns : Text.Unbroken m.returns
  name : Text.Unbroken m.name
  parameters : ∀ p ∈ m.parameters, p.Unbroken
  body : ∀ s ∈ m.body.getD [], Text.Unbroken s.text

/-- No text of a constructor has a line break, its documentation aside. -/
structure Constructor.Unbroken (c : Constructor) : Prop where
  attributes : ∀ a ∈ c.attributes, a.Unbroken
  name : Text.Unbroken c.name
  parameters : ∀ p ∈ c.parameters, p.Unbroken
  baseArgs : ∀ e ∈ c.baseArgs.getD [], Text.Unbroken e.text
  body : ∀ s ∈ c.body, Text.Unbroken s.text

/-- No text in the member has a line break. -/
def Member.Unbroken : Member → Prop
  | .property p => p.Unbroken
  | .constructor c => c.Unbroken
  | .method m => m.Unbroken

/-- No text of a declaration has a line break, documentation aside. -/
structure Declaration.Unbroken (d : Declaration) : Prop where
  attributes : ∀ a ∈ d.attributes, a.Unbroken
  name : Text.Unbroken d.name
  parameters : ∀ p ∈ d.parameters.getD [], p.Unbroken
  bases : ∀ b ∈ d.bases, Text.Unbroken b
  members : ∀ m ∈ d.members, m.Unbroken
  region : ∀ name ∈ d.region, Text.Unbroken name

/-- No text in the file has a line break, its documentation aside. -/
structure File.Unbroken (f : File) : Prop where
  usings : ∀ u ∈ f.usings, Text.Unbroken u
  space : ∀ space ∈ f.space, Text.Unbroken space
  declarations : ∀ d ∈ f.declarations, d.Unbroken

open Text in
/-- The text of modifiers has no line break. -/
lemma unbroken_modifiers {ms : List Modifier} : Unbroken (modifierText ms) := by
  refine unbroken_concat (List.forall_mem_map.2 fun m _ => unbroken_append.2 ⟨?_, by decide⟩)
  cases m <;> decide

open Text in
/-- Arguments without line breaks have none between their parentheses. -/
lemma unbroken_arguments {es : List Expression} (h : ∀ e ∈ es, Unbroken e.text) :
    Unbroken (argumentText es) :=
  unbroken_join (by decide) (List.forall_mem_map.2 h)

/-- Parameters in parentheses can be seen, also when there are none. -/
lemma filled_parameters {ps : List Parameter} (h : ∀ p ∈ ps, p.Unbroken) :
    Text.Filled (parameterText ps) := by
  refine .of_left (.of_left ⟨by decide, by decide⟩ ?_) (by decide)
  refine Text.unbroken_join (by decide) (List.forall_mem_map.2 fun p hp => ?_)
  exact Text.unbroken_append.2
    ⟨Text.unbroken_append.2 ⟨(h p hp).type, by decide⟩, (h p hp).name⟩

open Layout

/-- An attribute without line breaks is orderly. -/
lemma orderly_attribute {a : Attribute} (h : a.Unbroken) : Orderly [a.layout] := by
  refine .line (.of_left (.of_left ⟨by decide, by decide⟩ ?_) (by decide))
  split
  · exact h.name
  · exact Text.unbroken_append.2 ⟨Text.unbroken_append.2
      ⟨Text.unbroken_append.2 ⟨h.name, by decide⟩, unbroken_arguments h.args⟩, by decide⟩

/-- What stands above a declaration or member is orderly. -/
lemma orderly_leading {doc attributes} (h : ∀ a ∈ attributes, a.Unbroken) :
    Orderly (leading doc attributes) :=
  (Orderly.map fun _ _ => .doc).append (.map fun a ha => orderly_attribute (h a ha))

/-- A body of statements that were read is orderly. -/
lemma orderly_statements {body : List Statement} (h : ∀ s ∈ body, Text.Unbroken s.text)
    (hread : ∀ s ∈ body, s.WasRead) : Orderly (bodyLayout body) := by
  refine .map fun s hs => .line ⟨h s hs, ?_⟩
  obtain ⟨text, hparse⟩ := hread s hs
  exact (Fragment.isFragment_of_statement hparse).not_blank

/-- A property without line breaks is orderly. -/
lemma orderly_property {p : Property} (h : p.Unbroken) : Orderly p.layout := by
  refine (orderly_leading h.attributes).append (.line (.of_right ?_ ⟨by decide, by decide⟩))
  have haccessors : Text.Unbroken (String.join (p.accessors.map fun a => a.text ++ "; ")) := by
    refine Text.unbroken_concat
      (List.forall_mem_map.2 fun a _ => Text.unbroken_append.2 ⟨?_, by decide⟩)
    cases a <;> decide
  simp only [Text.unbroken_append]
  exact ⟨⟨⟨⟨⟨unbroken_modifiers, h.type⟩, by decide⟩, h.name⟩, by decide⟩, haccessors⟩

/-- A method without line breaks is orderly. -/
lemma orderly_method {m : Method} (h : m.Unbroken) (hread : ∀ s ∈ m.body.getD [], s.WasRead) :
    Orderly m.layout := by
  have hsignature : Text.Filled (modifierText m.modifiers ++ m.returns ++ " " ++ m.name ++
      parameterText m.parameters) := by
    refine .of_right ?_ (filled_parameters h.parameters)
    simp only [Text.unbroken_append]
    exact ⟨⟨⟨unbroken_modifiers, h.returns⟩, by decide⟩, h.name⟩
  refine (orderly_leading h.attributes).append ?_
  cases hbody : m.body with
  | none => exact .line (.of_left hsignature (by decide))
  | some body =>
    have hbody' : ∀ s ∈ body, Text.Unbroken s.text := by simpa [hbody] using h.body
    have hread' : ∀ s ∈ body, s.WasRead := by simpa [hbody] using hread
    exact .block hsignature (orderly_statements hbody' hread')

/-- A constructor without line breaks is orderly. -/
lemma orderly_constructor {c : Constructor} (h : c.Unbroken) (hread : ∀ s ∈ c.body, s.WasRead) :
    Orderly c.layout := by
  refine (orderly_leading h.attributes).append (.block ?_ (orderly_statements h.body hread))
  refine .of_left (.of_right ?_ (filled_parameters h.parameters)) ?_
  · exact Text.unbroken_append.2 ⟨unbroken_modifiers, h.name⟩
  · cases hargs : c.baseArgs with
    | none => exact List.not_mem_nil
    | some args =>
      refine Text.unbroken_append.2 ⟨Text.unbroken_append.2 ⟨by decide, ?_⟩, by decide⟩
      have hes : ∀ e ∈ args, Text.Unbroken e.text := by simpa [hargs] using h.baseArgs
      exact unbroken_arguments hes

/-- A member without line breaks is orderly. -/
lemma orderly_member {m : Member} (h : m.Unbroken) (hread : ∀ s ∈ m.statements, s.WasRead) :
    Orderly m.layout := by
  cases m with
  | property p => exact orderly_property h
  | constructor c => exact orderly_constructor h hread
  | method m => exact orderly_method h hread

/-- The header of a declaration makes up a line. -/
lemma filled_header {d : Declaration} (h : d.Unbroken) : Text.Filled d.header := by
  have hkind : Text.Filled d.kind.keyword := by
    cases d.kind <;> exact ⟨by decide, by decide⟩
  refine .of_left (.of_left (.of_left (.of_left (.of_right unbroken_modifiers hkind) (by decide))
    h.name) ?_) ?_
  · cases hparameters : d.parameters with
    | none => exact List.not_mem_nil
    | some ps =>
      have hps : ∀ p ∈ ps, p.Unbroken := by simpa [hparameters] using h.parameters
      exact (filled_parameters hps).unbroken
  · split
    · exact List.not_mem_nil
    · exact Text.unbroken_append.2 ⟨by decide, Text.unbroken_join (by decide) h.bases⟩

/-- A declaration without line breaks is orderly. -/
lemma orderly_declaration {d : Declaration} (h : d.Unbroken)
    (hread : ∀ m ∈ d.members, ∀ s ∈ m.statements, s.WasRead) : Orderly d.layout := by
  have hbare : Orderly d.bare := by
    refine (orderly_leading h.attributes).append ?_
    split
    · exact .line (.of_left (filled_header h) (by decide))
    · exact .block (filled_header h) (.separated (List.forall_mem_map.2 fun m hm =>
        orderly_member (h.members m hm) (hread m hm)))
  unfold Declaration.layout
  cases hregion : d.region with
  | none => exact hbare
  | some name => exact .region (h.region name hregion) hbare

/-- Every declaration has a layout. -/
lemma Declaration.layout_ne_nil {d : Declaration} : d.layout ≠ [] := by
  unfold layout
  split
  · exact List.cons_ne_nil _ _
  · exact List.append_ne_nil_of_right_ne_nil _ (List.cons_ne_nil _ _)

namespace File

/-- A file with declarations has a body. -/
lemma body_ne_nil {f : File} (hne : f.declarations ≠ []) : f.body ≠ [] := by
  obtain ⟨d, ds, hd⟩ := List.exists_cons_of_ne_nil hne
  have hdeclarations : separated (f.declarations.map Declaration.layout) ≠ [] :=
    separated_ne_nil (List.mem_map_of_mem (hd ▸ .head _)) (d.layout_ne_nil)
  unfold body
  split
  · exact hdeclarations
  · exact separated_ne_nil (.tail _ (.head _)) hdeclarations
  · exact List.cons_ne_nil _ _

/-- The body of a file without line breaks is orderly. -/
lemma orderly_body {f : File} (h : f.Unbroken) (hread : ∀ s ∈ f.statements, s.WasRead) :
    Orderly f.body := by
  have hdeclarations : Orderly (separated (f.declarations.map Declaration.layout)) := by
    refine .separated (List.forall_mem_map.2 fun d hd => orderly_declaration (h.declarations d hd)
      fun m hm s hs => hread s ?_)
    exact List.mem_flatMap.2 ⟨d, hd, List.mem_flatMap.2 ⟨m, hm, hs⟩⟩
  have hspace : ∀ space ∈ f.space, Text.Filled ("namespace " ++ space) :=
    fun space hs => .of_left ⟨by decide, by decide⟩ (h.space space hs)
  unfold body
  split
  · exact hdeclarations
  case h_2 space hs _ =>
    refine .separated (List.forall_mem_cons.2 ⟨.line (.of_left (hspace space hs) (by decide)), ?_⟩)
    exact List.forall_mem_singleton.2 hdeclarations
  case h_3 space hs _ => exact .block (hspace space hs) hdeclarations

/-- The layout of a file without line breaks is orderly. -/
lemma orderly_layout {f : File} (h : f.Unbroken) (hread : ∀ s ∈ f.statements, s.WasRead) :
    Orderly f.layout := by
  refine .separated (List.forall_mem_cons.2 ⟨.map fun u hu => .line ?_, ?_⟩)
  · exact .of_left (.of_left ⟨by decide, by decide⟩ (h.usings u hu)) (by decide)
  · exact List.forall_mem_singleton.2 (orderly_body h hread)

/-- In a printed file without line breaks in its texts, each line is its own text behind as much
space as there are blocks around it, blank lines stand neither at an end of the file nor together,
and one line feed ends the last line. Writing any layout leaves the depth as it was, and never
leaves a block that was not entered. -/
theorem layout_follows_nesting (f : File) (indent : Indent) (hne : f.declarations ≠ [])
    (h : f.Unbroken) (hread : ∀ s ∈ f.statements, s.WasRead) :
    plainAll f.layout = true ∧
      (∃ ls, ls = printedAll 0 f.layout ∧
        (f.render indent).toList.splitOn '\n' =
          (ls.map fun l => (l.written indent).toList) ++ [[]] ∧
        (∀ l ∈ ls, l = .blank ∨ ¬Text.Blank (l.written indent).toList) ∧
        Text.Spaced (ls.map fun l => (l.written indent).toList)) ∧
      (∃ cs c, (f.render indent).toList = cs ++ [c, '\n'] ∧ c ≠ '\n') ∧
      ∀ (w : Writer) (l : Layout),
        (w.apply l).level = w.level ∧ w.applied? l = some (w.apply l) := by
  have horderly := orderly_layout h hread
  have hgrouped := horderly.grouped 0
  have hlayout : f.layout ≠ [] := separated_ne_nil (.tail _ (.head _)) (body_ne_nil hne)
  have hprinted : printedAll 0 f.layout ≠ [] := printedAll_ne_nil horderly.plain hlayout
  have hrender := Writer.render_eq_join indent f.layout
  refine ⟨horderly.plain, ⟨_, rfl, ?_, ?_, hgrouped.spaced indent⟩, ?_,
    fun w l => ⟨?_, Writer.applied?_eq l w⟩⟩
  · rw [File.render, hrender, PrintedLine.splitOn_join indent (hgrouped.unbroken indent)]
  · exact fun l hl => (hgrouped.mem l hl).imp id fun hfilled => hfilled.not_blank indent
  · rw [File.render, hrender]
    exact hgrouped.exists_last indent hprinted
  · rw [Writer.apply_eq_print]
    rfl

/-- A class with a method in the block of its namespace. -/
def greeter : File where
  usings := ["System"]
  space := some "Example"
  style := .block
  declarations :=
    [{ kind := .classDecl
       name := "Greeter"
       doc := some "Greets.\nOr not."
       attributes := []
       modifiers := [.publicAccess]
       parameters := none
       bases := []
       members :=
         [.method
           { doc := none
             attributes := []
             modifiers := [.publicAccess]
             returns := "void"
             name := "Greet"
             parameters := [⟨"name", "string"⟩]
             body := some [⟨.simple, "Console.WriteLine(name);"⟩] }]
       region := none }]

/-- A file with one class follows its nesting, written with tabs. -/
theorem layout_follows_nesting_greeter :
    greeter.declarations ≠ [] ∧ greeter.Unbroken ∧ (∀ s ∈ greeter.statements, s.WasRead) ∧
      plainAll greeter.layout = true ∧
      (∃ ls, ls = printedAll 0 greeter.layout ∧
        (greeter.render .tab).toList.splitOn '\n' =
          (ls.map fun l => (l.written .tab).toList) ++ [[]] ∧
        (∀ l ∈ ls, l = .blank ∨ ¬Text.Blank (l.written .tab).toList) ∧
        Text.Spaced (ls.map fun l => (l.written .tab).toList)) ∧
      (∃ cs c, (greeter.render .tab).toList = cs ++ [c, '\n'] ∧ c ≠ '\n') ∧
      ∀ (w : Writer) (l : Layout),
        (w.apply l).level = w.level ∧ w.applied? l = some (w.apply l) := by
  have hne : greeter.declarations ≠ [] := List.cons_ne_nil _ _
  have hunbroken : greeter.Unbroken :=
    { usings := by decide
      space := by decide
      declarations := List.forall_mem_singleton.2
        { attributes := nofun
          name := by decide
          parameters := nofun
          bases := nofun
          members := List.forall_mem_singleton.2 (show Method.Unbroken _ from
            { attributes := nofun
              returns := by decide
              name := by decide
              parameters := List.forall_mem_singleton.2 ⟨by decide, by decide⟩
              body := by decide })
          region := nofun } }
  have hread : ∀ s ∈ greeter.statements, s.WasRead := by
    refine List.forall_mem_singleton.2 ⟨"Console.WriteLine( name );", ?_⟩
    decide +kernel
  exact ⟨hne, hunbroken, hread, layout_follows_nesting greeter .tab hne hunbroken hread⟩

end File

end Code

end SharpSmith
