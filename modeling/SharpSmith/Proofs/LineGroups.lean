import Mathlib.Data.List.Chain
import Mathlib.Data.Option.Basic
import SharpSmith.Proofs.Lines

/-!
# Lines in groups

The lines of a layout stand in groups: a blank line stands between two groups and nowhere else.
`Orderly` says so of layouts at every depth, and that only blocks make a line stand deeper. It holds
of a single line that is not blank, and putting orderly layouts together keeps it.
-/

namespace SharpSmith

namespace Text

/-- A text without a line break. -/
def Unbroken (s : String) : Prop :=
  '\n' ∉ s.toList

/-- Whether a text has no line break can be decided. -/
instance {s : String} : Decidable (Unbroken s) :=
  inferInstanceAs (Decidable (_ ∉ _))

/-- Two texts have no line break together just if neither has one. -/
lemma unbroken_append {a b : String} : Unbroken (a ++ b) ↔ Unbroken a ∧ Unbroken b := by
  rw [Unbroken, String.toList_append, List.mem_append, not_or]
  rfl

/-- Texts without line breaks have none together. -/
lemma unbroken_concat {ss : List String} (h : ∀ s ∈ ss, Unbroken s) :
    Unbroken (String.join ss) := by
  rw [Unbroken, String.toList_join, List.mem_flatMap]
  rintro ⟨s, hs, hmem⟩
  exact h s hs hmem

/-- Texts without line breaks have none when a separator without one stands between them. -/
lemma unbroken_join {separator : String} (hsep : Unbroken separator) {ss : List String}
    (h : ∀ s ∈ ss, Unbroken s) : Unbroken (join separator ss) := by
  induction ss with
  | nil => exact List.not_mem_nil
  | cons s ss ih =>
    obtain ⟨hs, hss⟩ := List.forall_mem_cons.1 h
    cases ss with
    | nil => exact hs
    | cons t ss => exact unbroken_append.2 ⟨unbroken_append.2 ⟨hs, hsep⟩, ih hss⟩

/-- Nothing but white space. -/
def Blank (cs : List Char) : Prop :=
  ∀ c ∈ cs, isBlank c = true

/-- Whether characters are all white space can be decided. -/
instance {cs : List Char} : Decidable (Blank cs) :=
  List.decidableBAll _ _

/-- Two texts are white space together just if both are. -/
lemma blank_append {a b : List Char} : Blank (a ++ b) ↔ Blank a ∧ Blank b :=
  List.forall_mem_append

/-- A text that makes up a line which is not blank. -/
structure Filled (s : String) : Prop where
  unbroken : Unbroken s
  visible : ¬Blank s.toList

/-- A line that ends with something to see. -/
lemma Filled.of_right {a b : String} (ha : Unbroken a) (hb : Filled b) : Filled (a ++ b) := by
  refine ⟨unbroken_append.2 ⟨ha, hb.unbroken⟩, fun h => hb.visible ?_⟩
  rw [String.toList_append, blank_append] at h
  exact h.2

/-- A line that starts with something to see. -/
lemma Filled.of_left {a b : String} (ha : Filled a) (hb : Unbroken b) : Filled (a ++ b) := by
  refine ⟨unbroken_append.2 ⟨ha.unbroken, hb⟩, fun h => ha.visible ?_⟩
  rw [String.toList_append, blank_append] at h
  exact h.1

/-- The lines of a text of which none is blank at the start or the end, and no two blank ones stand
together. -/
structure Spaced (lines : List (List Char)) : Prop where
  first : ∀ line ∈ lines.head?, ¬Blank line
  last : ∀ line ∈ lines.getLast?, ¬Blank line
  apart : lines.IsChain fun line next => ¬Blank line ∨ ¬Blank next

end Text

namespace PrintedLine

/-- The line is not a blank one, and its text makes up a line. -/
def Filled : PrintedLine → Prop
  | .blank => False
  | .text _ s => Text.Filled s

/-- The lines stand in groups, with a blank line between each two. -/
inductive Grouped : List PrintedLine → Prop where
  | nil : Grouped []
  | line {l ls} : l.Filled → Grouped ls → Grouped (l :: ls)
  | gap {l ls} : l.Filled → ls ≠ [] → Grouped ls → Grouped (l :: .blank :: ls)

variable {ls ms : List PrintedLine} (indent : Indent)

/-- Lines of which none is blank are one group, or none. -/
lemma Grouped.of_filled (h : ∀ l ∈ ls, l.Filled) : Grouped ls := by
  induction ls with
  | nil => exact .nil
  | cons l ls ih =>
    obtain ⟨hl, hls⟩ := List.forall_mem_cons.1 h
    exact .line hl (ih hls)

/-- Groups after groups stand together, since the last line of these is filled. -/
lemma Grouped.append (h : Grouped ls) (h' : Grouped ms) : Grouped (ls ++ ms) := by
  induction h with
  | nil => exact h'
  | line hl _ ih => exact .line hl ih
  | gap hl hne _ ih => exact .gap hl (List.append_ne_nil_of_left_ne_nil hne _) ih

/-- Lines in groups may follow others behind a blank line. -/
lemma Grouped.append_blank (h : Grouped ls) (hls : ls ≠ []) (h' : Grouped ms) (hms : ms ≠ []) :
    Grouped (ls ++ .blank :: ms) := by
  induction h with
  | nil => exact absurd rfl hls
  | @line l ls hl _ ih =>
    cases ls with
    | nil => exact .gap hl hms h'
    | cons => exact .line hl (ih (List.cons_ne_nil _ _))
  | gap hl hne _ ih => exact .gap hl (List.append_ne_nil_of_left_ne_nil hne _) (ih hne)

/-- Each line in groups is blank or filled. -/
lemma Grouped.mem (h : Grouped ls) : ∀ l ∈ ls, l = .blank ∨ l.Filled := by
  induction h with
  | nil => exact nofun
  | line hl _ ih => exact List.forall_mem_cons.2 ⟨.inr hl, ih⟩
  | gap hl _ _ ih => exact List.forall_mem_cons.2 ⟨.inr hl, List.forall_mem_cons.2 ⟨.inl rfl, ih⟩⟩

/-- The first line of groups is filled. -/
lemma Grouped.head (h : Grouped ls) : ∀ l ∈ ls.head?, l.Filled := by
  cases h with
  | nil => exact nofun
  | line hl | gap hl =>
    rintro l ⟨⟩
    exact hl

/-- The last line of groups is filled. -/
lemma Grouped.last (h : Grouped ls) : ∀ l ∈ ls.getLast?, l.Filled := by
  induction h with
  | nil => exact nofun
  | @line l ls hl _ ih =>
    cases ls with
    | nil =>
      rintro l ⟨⟩
      exact hl
    | cons m ls => rwa [List.getLast?_cons_cons]
  | @gap l ls hl hne _ ih =>
    obtain ⟨m, ls, rfl⟩ := List.exists_cons_of_ne_nil hne
    rwa [List.getLast?_cons_cons, List.getLast?_cons_cons]

/-- No two blank lines stand together. -/
lemma Grouped.apart (h : Grouped ls) : ls.IsChain fun l m => l.Filled ∨ m.Filled := by
  induction h with
  | nil => exact .nil
  | line hl _ ih => exact List.isChain_cons.2 ⟨fun _ _ => .inl hl, ih⟩
  | gap hl _ h ih =>
    exact List.isChain_cons_cons.2
      ⟨.inl hl, List.isChain_cons.2 ⟨fun m hm => .inr (h.head m hm), ih⟩⟩

/-- What is written of a line that is not blank is not blank either. -/
lemma Filled.not_blank {l : PrintedLine} (h : l.Filled) :
    ¬Text.Blank (l.written indent).toList := by
  cases l with
  | blank => exact absurd h id
  | text depth s =>
    rw [written, String.toList_append, Text.blank_append]
    exact fun hb => h.visible hb.2

/-- No line in groups is written with a line break. -/
lemma Grouped.unbroken (h : Grouped ls) : ∀ l ∈ ls, Text.Unbroken (l.written indent) := by
  intro l hl
  rcases h.mem l hl with rfl | hfilled
  · exact List.not_mem_nil
  · cases l with
    | blank => exact absurd hfilled id
    | text depth s =>
      refine Text.unbroken_append.2 ⟨fun hmem => ?_, hfilled.unbroken⟩
      rcases Indent.mem_text hmem with hc | hc <;> exact absurd hc (by decide)

/-- Lines in groups are written with single blank lines between them. -/
lemma Grouped.spaced (h : Grouped ls) :
    Text.Spaced (ls.map fun l => (l.written indent).toList) := by
  refine ⟨?_, ?_, ?_⟩
  · rw [List.head?_map, Option.forall_mem_map]
    exact fun l hl => (h.head l hl).not_blank indent
  · rw [List.getLast?_map, Option.forall_mem_map]
    exact fun l hl => (h.last l hl).not_blank indent
  · rw [List.isChain_map]
    exact h.apart.imp fun l m hlm => hlm.imp (Filled.not_blank indent) (Filled.not_blank indent)

/-- Behind the last line there is one line feed. -/
lemma Grouped.exists_last (h : Grouped ls) (hne : ls ≠ []) :
    ∃ cs c, (String.join (ls.map fun l => l.written indent ++ "\n")).toList = cs ++ [c, '\n'] ∧
      c ≠ '\n' := by
  obtain ⟨ls, l, rfl⟩ := (List.eq_nil_or_concat' ls).resolve_left hne
  have hl : l ∈ (ls ++ [l]).getLast? := List.getLast?_concat
  obtain hnil | ⟨cs, c, hcs⟩ := List.eq_nil_or_concat' (l.written indent).toList
  · refine absurd ?_ ((h.last l hl).not_blank indent)
    rw [hnil]
    exact nofun
  refine ⟨(String.join (ls.map fun l => l.written indent ++ "\n")).toList ++ cs, c, ?_, ?_⟩
  · rw [List.map_append, String.join_append, List.map_singleton, String.join_cons, String.join_nil,
      String.append_empty, String.toList_append, String.toList_append, hcs]
    simp
  · rintro rfl
    refine h.unbroken indent l (List.mem_append_right _ (.head _)) ?_
    rw [hcs]
    exact List.mem_append_right _ (.head _)

/-- The lines of a text are those that were printed, and nothing stands behind the end of the last
one. -/
lemma splitOn_join (h : ∀ l ∈ ls, Text.Unbroken (l.written indent)) :
    (String.join (ls.map fun l => l.written indent ++ "\n")).toList.splitOn '\n' =
      (ls.map fun l => (l.written indent).toList) ++ [[]] := by
  induction ls with
  | nil => rfl
  | cons l ls ih =>
    obtain ⟨hl, hls⟩ := List.forall_mem_cons.1 h
    have hsplit (rest : String) : (l.written indent ++ "\n" ++ rest).toList =
        (l.written indent).toList ++ '\n' :: rest.toList := by
      rw [String.toList_append, String.toList_append, List.append_assoc]
      rfl
    rw [List.map_cons, String.join_cons, hsplit, List.splitOn_append_cons_self_of_not_mem hl,
      ih hls]
    rfl

end PrintedLine

namespace Layout

mutual

/-- There are only lines, blank lines, comments, blocks and regions in the layout. -/
def plain : Layout → Bool
  | .line _ | .blank | .doc _ => true
  | .block _ body | .region _ body => plainAll body
  | .deeper _ | .sequence _ => false

/-- So there are in each of the layouts. -/
def plainAll : List Layout → Bool
  | [] => true
  | l :: ls => plain l && plainAll ls

end

/-- Only blocks have depth in two lists of layouts just if this is so in each. -/
lemma plainAll_append {ls ms : List Layout} :
    plainAll (ls ++ ms) = (plainAll ls && plainAll ms) := by
  induction ls with
  | nil => rfl
  | cons l ls ih => rw [List.cons_append, plainAll, plainAll, ih, Bool.and_assoc]

/-- A list of one layout is plain just if the layout is. -/
lemma plainAll_singleton {l : Layout} : plainAll [l] = plain l := by
  rw [plainAll, plainAll, Bool.and_true]

/-- A plain layout has lines. -/
lemma printed_ne_nil {depth} {l : Layout} (h : plain l = true) : printed depth l ≠ [] := by
  cases l with
  | deeper | sequence => cases h
  | _ => exact List.cons_ne_nil _ _

/-- Plain layouts print some line if there is a layout. -/
lemma printedAll_ne_nil {depth} {ls : List Layout} (h : plainAll ls = true) (hne : ls ≠ []) :
    printedAll depth ls ≠ [] := by
  obtain ⟨l, ls, rfl⟩ := List.exists_cons_of_ne_nil hne
  rw [plainAll, Bool.and_eq_true] at h
  exact List.append_ne_nil_of_left_ne_nil (printed_ne_nil h.1) _

/-- Layouts whose lines stand in groups at whatever depth, and in which only blocks have depth. -/
structure Orderly (ls : List Layout) : Prop where
  plain : plainAll ls = true
  grouped : ∀ depth, PrintedLine.Grouped (printedAll depth ls)

namespace Orderly

variable {ls ms : List Layout}

/-- No layouts are orderly. -/
lemma nil : Orderly [] :=
  ⟨rfl, fun _ => .nil⟩

/-- Orderly layouts after orderly ones are orderly together. -/
lemma append (h : Orderly ls) (h' : Orderly ms) : Orderly (ls ++ ms) := by
  refine ⟨?_, fun depth => ?_⟩
  · rw [plainAll_append, h.plain, h'.plain]
    rfl
  · rw [printedAll_append]
    exact (h.grouped depth).append (h'.grouped depth)

/-- A layout of which all lines are filled. -/
lemma of_filled {l : Layout} (hp : l.plain = true) (h : ∀ depth, ∀ p ∈ printed depth l, p.Filled) :
    Orderly [l] := by
  refine ⟨plainAll_singleton.trans hp, fun depth => ?_⟩
  rw [printedAll_singleton]
  exact .of_filled (h depth)

/-- A line that is filled is orderly. -/
lemma line {s} (h : Text.Filled s) : Orderly [.line s] :=
  of_filled rfl fun _ => List.forall_mem_singleton.2 h

/-- A documentation comment is orderly whatever its text. -/
lemma doc {text} : Orderly [.doc text] := by
  refine of_filled rfl fun depth => List.forall_mem_map.2 fun s hs => ?_
  obtain ⟨cs, hcs, hnone⟩ := comment_of_mem_docLines s hs
  refine ⟨?_, ?_⟩
  · rw [Text.Unbroken, hcs]
    simpa using fun h => hnone _ h rfl
  · rw [hcs]
    exact fun h => absurd (h '/' (.head _)) (by decide)

/-- A block with a filled header around an orderly body is orderly. -/
lemma block {header} (hh : Text.Filled header) (hb : Orderly ls) : Orderly [.block header ls] := by
  have hsign : ∀ s ∈ ["\x7b", "\x7d"], Text.Filled s := by
    intro s hs
    simp only [List.mem_cons, List.not_mem_nil, or_false] at hs
    rcases hs with rfl | rfl <;> exact ⟨by decide, by decide⟩
  refine ⟨plainAll_singleton.trans hb.plain, fun depth => ?_⟩
  rw [printedAll_singleton, printed]
  refine .line hh (.line (hsign _ (by decide)) ((hb.grouped (depth + 1)).append ?_))
  exact .line (hsign _ (by decide)) .nil

/-- A region around an orderly body is orderly. -/
lemma region {name} (hn : Text.Unbroken name) (hb : Orderly ls) : Orderly [.region name ls] := by
  refine ⟨plainAll_singleton.trans hb.plain, fun depth => ?_⟩
  rw [printedAll_singleton, printed]
  refine .line (Text.Filled.of_left ⟨by decide, by decide⟩ hn) ((hb.grouped depth).append ?_)
  exact .line ⟨by decide, by decide⟩ .nil

/-- Orderly layouts stay orderly with a blank line between them. -/
lemma separate (h : Orderly ls) (h' : Orderly ms) : Orderly (separate ls ms) := by
  unfold Layout.separate
  split
  case isTrue => exact h
  case isFalse hms =>
    split
    case isTrue => exact h'
    case isFalse hls =>
      rw [List.isEmpty_iff] at hls hms
      refine ⟨?_, fun depth => ?_⟩
      · rw [plainAll_append, h.plain, plainAll, h'.plain]
        rfl
      · rw [printedAll_append]
        exact (h.grouped depth).append_blank (printedAll_ne_nil h.plain hls) (h'.grouped depth)
          (printedAll_ne_nil h'.plain hms)

/-- Orderly groups with blank lines between are orderly. -/
lemma separated {groups : List (List Layout)} (h : ∀ g ∈ groups, Orderly g) :
    Orderly (separated groups) := by
  have hfold : ∀ ls, Orderly ls → Orderly (groups.foldl Layout.separate ls) := by
    induction groups with
    | nil => exact fun _ hls => hls
    | cons g groups ih =>
      obtain ⟨hg, hgroups⟩ := List.forall_mem_cons.1 h
      exact fun ls hls => ih hgroups _ (hls.separate hg)
  exact hfold [] .nil

/-- The layouts of several things one after the other. -/
lemma map {α : Type} {layout : α → Layout} {xs : List α} (h : ∀ x ∈ xs, Orderly [layout x]) :
    Orderly (xs.map layout) := by
  induction xs with
  | nil => exact .nil
  | cons x xs ih =>
    obtain ⟨hx, hxs⟩ := List.forall_mem_cons.1 h
    exact hx.append (ih hxs)

end Orderly

/-- Two groups are something if one of them is. -/
lemma separate_ne_nil {before group : List Layout} (h : before ≠ [] ∨ group ≠ []) :
    separate before group ≠ [] := by
  unfold separate
  split
  case isTrue hgroup => exact h.resolve_right (not_not.2 (List.isEmpty_iff.1 hgroup))
  case isFalse hgroup =>
    rw [List.isEmpty_iff] at hgroup
    split
    · exact hgroup
    · exact List.append_ne_nil_of_right_ne_nil _ (List.cons_ne_nil _ _)

/-- Where some group has something, so have the groups together. -/
lemma separated_ne_nil {groups : List (List Layout)} {g} (hg : g ∈ groups) (hne : g ≠ []) :
    separated groups ≠ [] := by
  have hfold : ∀ ls, (ls ≠ [] ∨ g ∈ groups) → groups.foldl separate ls ≠ [] := by
    clear hg
    induction groups with
    | nil => exact fun ls h => h.resolve_right List.not_mem_nil
    | cons first groups ih =>
      intro ls h
      refine ih _ ?_
      rcases h with hls | hg
      · exact .inl (separate_ne_nil (.inl hls))
      rcases List.mem_cons.1 hg with rfl | hg
      · exact .inl (separate_ne_nil (.inr hne))
      · exact .inr hg
  exact hfold [] (.inr hg)

end Layout

end SharpSmith
