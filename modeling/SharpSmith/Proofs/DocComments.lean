import SharpSmith.Proofs.Depths

/-!
# Documentation comments

Each line that is written of a documentation comment is a comment of its own. A line of C# also ends
at characters that the lines of the text do not end at, though. `doc_stays_comment_iff` says that
only what stands after such a character inside a line can be code, and `doc_turns_into_code` shows a
text of which a part is.
-/

namespace SharpSmith

namespace Text

/-- A character that ends a line of C#: a line feed, a carriage return, a next line, a line
separator or a paragraph separator. -/
def endsLine (c : Char) : Bool :=
  c == '\n' || c == '\r' || c == '\u0085' || c == '\u2028' || c == '\u2029'

/-- The parts of a text between the ends of its lines. Nothing stands between a carriage return and
a line feed that end a line together. -/
def codeLines (cs : List Char) : List (List Char) :=
  cs.splitOnP endsLine

/-- A line end at the start of a text ends an empty line. -/
lemma codeLines_cons_end {c : Char} {cs} (h : endsLine c = true) :
    codeLines (c :: cs) = [] :: codeLines cs := by
  rw [codeLines, List.splitOnP_cons_eq_if_modifyHead, if_pos h]
  rfl

/-- What ends no line becomes part of the first line. -/
lemma codeLines_append {a b : List Char} (h : ∀ c ∈ a, endsLine c = false) :
    codeLines (a ++ b) = (codeLines b).modifyHead (a ++ ·) := by
  induction a with
  | nil =>
    rw [List.nil_append]
    cases codeLines b <;> rfl
  | cons c a ih =>
    obtain ⟨hc, ha⟩ := List.forall_mem_cons.1 h
    have hsplit : codeLines (c :: (a ++ b)) = (codeLines (a ++ b)).modifyHead (List.cons c) := by
      rw [codeLines, List.splitOnP_cons_eq_if_modifyHead, if_neg (by simp [hc])]
      rfl
    rw [List.cons_append, hsplit, ih ha, List.modifyHead_modifyHead]
    rfl

/-- Lines that a line feed ends are split each for itself. -/
lemma codeLines_terminated {ls : List (List Char)} :
    codeLines (ls.flatMap fun l => l ++ ['\n']) = ls.flatMap codeLines ++ [[]] := by
  induction ls with
  | nil => rfl
  | cons l ls ih =>
    have hsplit (cs : List Char) : codeLines (l ++ '\n' :: cs) = codeLines l ++ codeLines cs :=
      List.splitOnP_append_cons l cs (by decide)
    rw [List.flatMap_cons, List.append_assoc, List.singleton_append, hsplit, ih,
      List.flatMap_cons, List.append_assoc]

end Text

namespace Layout

/-- Markup is written as text that starts with `&` and ends no line, all else as it is. -/
lemma escapeChar_cases (c : Char) :
    escapeChar c = [c] ∨ (c = '&' ∨ c = '<' ∨ c = '>') ∧
      ∃ w, escapeChar c = '&' :: w ∧ ∀ x ∈ w, Text.endsLine x = false := by
  by_cases hc : c = '&' ∨ c = '<' ∨ c = '>'
  · refine .inr ⟨hc, ?_⟩
    rcases hc with rfl | rfl | rfl <;> exact ⟨_, rfl, by simp [Text.endsLine]⟩
  · simp only [not_or] at hc
    exact .inl (by simp [escapeChar, hc])

/-- The parts of a text are escaped each for itself. -/
lemma codeLines_escape (cs : List Char) :
    Text.codeLines (cs.flatMap escapeChar) = (Text.codeLines cs).map (List.flatMap escapeChar) := by
  induction cs with
  | nil => rfl
  | cons c cs ih =>
    rw [List.flatMap_cons]
    cases hc : Text.endsLine c with
    | true =>
      have hkept : escapeChar c = [c] := by
        refine (escapeChar_cases c).resolve_right fun h => ?_
        rcases h.1 with rfl | rfl | rfl <;> exact absurd hc (by decide)
      rw [hkept, List.singleton_append, Text.codeLines_cons_end hc, Text.codeLines_cons_end hc, ih]
      rfl
    | false =>
      have hnone : ∀ x ∈ escapeChar c, Text.endsLine x = false := by
        rcases escapeChar_cases c with e | ⟨-, w, e, hw⟩ <;> rw [e]
        · exact List.forall_mem_singleton.2 hc
        · exact List.forall_mem_cons.2 ⟨by decide, hw⟩
      rw [Text.codeLines_append hnone, ih, ← List.singleton_append,
        Text.codeLines_append (List.forall_mem_singleton.2 hc)]
      cases Text.codeLines cs with
      | nil => rfl
      | cons => simp

/-- A text without markup starts what is written of a text just if it starts the text. -/
lemma prefix_escape_iff {p cs : List Char} (hp : ∀ c ∈ p, c ≠ '&' ∧ c ≠ '<' ∧ c ≠ '>') :
    p <+: cs.flatMap escapeChar ↔ p <+: cs := by
  induction p generalizing cs with
  | nil => simp
  | cons m p ih =>
    obtain ⟨⟨hamp, hlt, hgt⟩, hp⟩ := List.forall_mem_cons.1 hp
    cases cs with
    | nil => simp
    | cons c cs =>
      rw [List.flatMap_cons, List.cons_prefix_cons]
      rcases escapeChar_cases c with e | ⟨hc, w, e, -⟩
      · rw [e, List.singleton_append, List.cons_prefix_cons, ih hp]
      · rw [e, List.cons_append, List.cons_prefix_cons]
        refine iff_of_false (fun h => hamp h.1) ?_
        rintro ⟨rfl, -⟩
        rcases hc with h | h | h
        · exact hamp h
        · exact hlt h
        · exact hgt h

end Layout

namespace Writer

/-- What a line of a documentation comment starts with at the present depth. -/
def commentStart (w : Writer) : List Char :=
  (w.indent.text w.level ++ "///").toList

/-- Before the text of a comment stand indentation and slashes. -/
lemma mem_commentStart {w : Writer} {c} (h : c ∈ w.commentStart) :
    c = ' ' ∨ c = '\t' ∨ c = '/' := by
  rw [commentStart, String.toList_append] at h
  rcases List.mem_append.1 h with h | h
  · rcases Indent.mem_text h with rfl | rfl
    · exact .inl rfl
    · exact .inr (.inl rfl)
  · exact .inr (.inr (by simpa using h))

/-- A line is empty or a comment at the present depth. -/
def Comments (w : Writer) (line : List Char) : Prop :=
  line = [] ∨ w.commentStart <+: line

/-- Escaping does not change whether a line stays in its comment. -/
lemma comments_escape_iff {w : Writer} {line} :
    w.Comments (line.flatMap Layout.escapeChar) ↔ w.Comments line := by
  have hplain : ∀ c ∈ w.commentStart, c ≠ '&' ∧ c ≠ '<' ∧ c ≠ '>' := by
    intro c hc
    rcases mem_commentStart hc with rfl | rfl | rfl <;> decide
  have hempty : line.flatMap Layout.escapeChar = [] ↔ line = [] := by
    rw [List.flatMap_eq_nil_iff]
    constructor
    · intro h
      cases line with
      | nil => rfl
      | cons c cs =>
        have hc := h c (.head _)
        rcases Layout.escapeChar_cases c with e | ⟨-, w, e, -⟩ <;> rw [e] at hc <;> cases hc
    · rintro rfl c hc
      cases hc
  rw [Comments, Comments, hempty, Layout.prefix_escape_iff hplain]

/-- A line that starts as a comment consists of comments just if what stands after its first end
does. -/
lemma comments_line_iff {w : Writer} {cs : List Char} :
    (∀ line ∈ Text.codeLines (w.commentStart ++ cs), w.Comments line) ↔
      ∀ line ∈ (Text.codeLines cs).tail, w.Comments line := by
  have hnone : ∀ c ∈ w.commentStart, Text.endsLine c = false := by
    intro c hc
    rcases mem_commentStart hc with rfl | rfl | rfl <;> decide
  rw [Text.codeLines_append hnone]
  cases e : Text.codeLines cs with
  | nil => exact absurd e (List.splitOnP_ne_nil _ _)
  | cons first rest =>
    rw [List.modifyHead_cons, List.forall_mem_cons, List.tail_cons]
    exact and_iff_right (.inr (List.prefix_append _ _))

/-- What is written of a documentation comment: its lines at the present depth, each with a line
feed behind it. -/
lemma apply_doc (w : Writer) (text : String) :
    ∃ added : String, w.apply (.doc text) = { w with buffer := w.buffer ++ added } ∧
      added.toList = (Layout.docLines text).flatMap fun s =>
        ((w.indent.text w.level ++ s).toList) ++ ['\n'] := by
  refine ⟨_, (apply_eq_print _ w).trans rfl, ?_⟩
  rw [Layout.printed, String.toList_join, List.map_map, List.flatMap_map]
  simp only [Function.comp_apply, PrintedLine.written, String.toList_append]
  rfl

/-- The summary line for a line of the text consists of comments just if what stands after its
first end does. -/
lemma comments_textLine_iff {w : Writer} {l : List Char} :
    (∀ line ∈ Text.codeLines (w.commentStart ++ ' ' :: l.flatMap Layout.escapeChar),
        w.Comments line) ↔
      ∀ line ∈ (Text.codeLines l).tail, w.Comments line := by
  have hspace : ∀ c ∈ [' '], Text.endsLine c = false := List.forall_mem_singleton.2 rfl
  rw [comments_line_iff, ← List.singleton_append, Text.codeLines_append hspace,
    List.tail_modifyHead, Layout.codeLines_escape, ← List.map_tail, List.forall_mem_map]
  exact forall₂_congr fun line _ => comments_escape_iff

/-- What is written of a line that starts as a comment. -/
lemma written_comment {w : Writer} {s : String} (rest) (h : s.toList = "///".toList ++ rest) :
    (w.indent.text w.level ++ s).toList = w.commentStart ++ rest := by
  rw [commentStart, String.toList_append, String.toList_append, h, List.append_assoc]

/-- A line without an end inside is a comment if it starts as one. -/
lemma comments_markup {w : Writer} {s : String} (rest) (h : s.toList = "///".toList ++ rest)
    (hrest : rest.any Text.endsLine = false) :
    ∀ line ∈ Text.codeLines (w.indent.text w.level ++ s).toList, w.Comments line := by
  have hnone : ∀ c ∈ rest, Text.endsLine c = false := by simpa using hrest
  rw [written_comment rest h, comments_line_iff, Text.codeLines, List.splitOnP_eq_singleton hnone]
  exact fun line hline => absurd hline List.not_mem_nil

/-- Lines that a line feed ends consist of comments just if each of them does. -/
lemma comments_terminated_iff {w : Writer} {ls : List (List Char)} :
    (∀ line ∈ Text.codeLines (ls.flatMap fun l => l ++ ['\n']), w.Comments line) ↔
      ∀ l ∈ ls, ∀ line ∈ Text.codeLines l, w.Comments line := by
  have hempty : w.Comments [] := .inl rfl
  rw [Text.codeLines_terminated, List.forall_mem_append, List.forall_mem_singleton,
    and_iff_left hempty]
  simp only [List.mem_flatMap, forall_exists_index, and_imp]
  exact ⟨fun h l hl line => h line l hl, fun h line l hl => h l hl line⟩

/-- What is written of a documentation comment consists of comments just if what stands after the
first end in each line of its text does. So it does if no line has an end inside. -/
theorem doc_stays_comment_iff (w : Writer) (text : String) :
    ∃ added : String, w.apply (.doc text) = { w with buffer := w.buffer ++ added } ∧
      ((∀ line ∈ Text.codeLines added.toList, w.Comments line) ↔
        ∀ l ∈ Text.lines text.toList, ∀ line ∈ (Text.codeLines (Text.trim l)).tail,
          w.Comments line) ∧
      ((∀ l ∈ Text.lines text.toList, ∀ c ∈ Text.trim l, Text.endsLine c = false) →
        ∀ line ∈ Text.codeLines added.toList, w.Comments line) := by
  obtain ⟨added, happly, hadded⟩ := apply_doc w text
  have hiff : (∀ line ∈ Text.codeLines added.toList, w.Comments line) ↔
      ∀ l ∈ Text.lines text.toList, ∀ line ∈ (Text.codeLines (Text.trim l)).tail,
        w.Comments line := by
    rw [hadded, ← List.flatMap_map (f := fun s => (w.indent.text w.level ++ s).toList)
      (g := fun l => l ++ ['\n']), comments_terminated_iff, List.forall_mem_map, Layout.docLines,
      List.cons_append, List.forall_mem_cons, List.forall_mem_append, List.forall_mem_singleton,
      List.forall_mem_map]
    -- the marks of the summary have no end inside, so only the lines of the text remain
    rw [and_iff_right (comments_markup " <summary>".toList (by decide) (by decide)),
      and_iff_left (comments_markup " </summary>".toList (by decide) (by decide))]
    refine forall₂_congr fun l _ => ?_
    rw [written_comment (' ' :: (Text.trim l).flatMap Layout.escapeChar) (by simp),
      comments_textLine_iff]
  refine ⟨added, happly, hiff, fun h => hiff.2 fun l hl line hline => ?_⟩
  rw [Text.codeLines, List.splitOnP_eq_singleton (h l hl)] at hline
  exact absurd hline List.not_mem_nil

/-- A carriage return in the text of a comment is kept, so what stands after it is code. -/
theorem doc_turns_into_code :
    ¬ ∀ line ∈ Text.codeLines
        ((Writer.new .standard).apply (.doc "a\rclass B;")).buffer.toList,
      (Writer.new .standard).Comments line := by
  have hwritten : ((Writer.new .standard).apply (.doc "a\rclass B;")).buffer =
      "/// <summary>\n/// a\rclass B;\n/// </summary>\n" := by decide +kernel
  rw [hwritten]
  intro h
  rcases h "class B;".toList (by decide +kernel) with hempty | hstart
  · exact absurd hempty (by decide)
  · exact absurd hstart (by decide +kernel)

end Writer

end SharpSmith
