import Mathlib.Tactic.Common
import SharpSmith.Layout

/-!
# Lines and their depth

Writing a layout adds lines to a text, each of them behind the space for its depth, and leaves the
writer at the level where it was (`apply_eq_print`). So a level that is left was entered before, and
none is left that is not there (`applied?_eq`).
-/

namespace SharpSmith

/-- A line as it is printed: a blank one, or a text at a depth. -/
inductive PrintedLine where
  | blank
  | text (depth : Nat) (text : String)

/-- What is written of a line, without its end. -/
def PrintedLine.written (indent : Indent) : PrintedLine → String
  | .blank => ""
  | .text depth s => indent.text depth ++ s

namespace Layout

mutual

/-- The lines of a layout at a depth: what stands in a block is one level deeper than its header
and its braces. -/
def printed (depth : Nat) : Layout → List PrintedLine
  | .line s => [.text depth s]
  | .blank => [.blank]
  | .block header body =>
    .text depth header :: .text depth "\x7b" :: (printedAll (depth + 1) body ++
      [.text depth "\x7d"])
  | .region name body =>
    .text depth ("#region " ++ name) :: (printedAll depth body ++ [.text depth "#endregion"])
  | .deeper body => printedAll (depth + 1) body
  | .sequence body => printedAll depth body
  | .doc text => (docLines text).map (.text depth)

/-- The lines of layouts, one after the other. -/
def printedAll (depth : Nat) : List Layout → List PrintedLine
  | [] => []
  | l :: ls => printed depth l ++ printedAll depth ls

end

/-- The lines of layouts after others come after the lines of those. -/
lemma printedAll_append {depth} {ls ms : List Layout} :
    printedAll depth (ls ++ ms) = printedAll depth ls ++ printedAll depth ms := by
  induction ls with
  | nil => rfl
  | cons l ls ih => rw [List.cons_append, printedAll, printedAll, ih, List.append_assoc]

/-- The lines of a list of one layout are those of the layout. -/
lemma printedAll_singleton {depth} {l : Layout} : printedAll depth [l] = printed depth l := by
  rw [printedAll, printedAll, List.append_nil]

end Layout

namespace Writer

/-- Adds lines to the text. -/
def print (w : Writer) (ls : List PrintedLine) : Writer :=
  { w with buffer := w.buffer ++ String.join (ls.map fun l => l.written w.indent ++ "\n") }

/-- Printing no lines changes nothing. -/
lemma print_nil {w : Writer} : w.print [] = w := by
  rw [print, List.map_nil, String.join_nil, String.append_empty]

/-- Lines after others are printed after them. -/
lemma print_append {w : Writer} {ls ms} : w.print (ls ++ ms) = (w.print ls).print ms := by
  simp only [print, List.map_append, String.join_append, String.append_assoc]

/-- The first line is printed before the others. -/
lemma print_cons {w : Writer} {l ls} : w.print (l :: ls) = (w.print [l]).print ls := by
  rw [← print_append, List.singleton_append]

/-- A line is printed at the level of the writer. -/
lemma line_eq_print {w : Writer} {s} : w.line s = w.print [.text w.level s] := by
  simp only [line, print, PrintedLine.written, List.map_singleton, String.join_cons,
    String.join_nil, String.append_empty, String.append_assoc]

/-- A blank line is printed as one. -/
lemma blank_eq_print {w : Writer} : w.blank = w.print [.blank] := by
  simp only [blank, print, PrintedLine.written, List.map_singleton, String.join_cons,
    String.join_nil, String.append_empty, String.empty_append]

/-- Lines that are written one level deeper leave the writer at its level. -/
lemma flatten_print {w : Writer} {ls} : (w.deepen.print ls).flatten = w.print ls := rfl

/-- Several lines are printed at the level of the writer. -/
lemma foldl_line {w : Writer} {ss : List String} :
    ss.foldl line w = w.print (ss.map (.text w.level)) := by
  induction ss generalizing w with
  | nil => rw [List.foldl_nil, List.map_nil, print_nil]
  | cons s ss ih =>
    rw [List.foldl_cons, ih, List.map_cons, print_cons, line_eq_print]
    rfl

mutual

/-- A layout is written as its lines at the present level, and the level stays. -/
theorem apply_eq_print : (l : Layout) → (w : Writer) → w.apply l = w.print (l.printed w.level)
  | .line s, w => by rw [apply, Layout.printed, line_eq_print]
  | .blank, w => by rw [apply, Layout.printed, blank_eq_print]
  | .block header body, w => by
    rw [apply, Layout.printed, applyAll_eq_print body, flatten_print, print_cons, print_cons,
      print_append, line_eq_print, line_eq_print, line_eq_print]
    rfl
  | .region name body, w => by
    rw [apply, Layout.printed, applyAll_eq_print body, print_cons, print_append, line_eq_print,
      line_eq_print]
    rfl
  | .deeper body, w => by
    rw [apply, Layout.printed, applyAll_eq_print body, flatten_print]
    rfl
  | .sequence body, w => by rw [apply, Layout.printed, applyAll_eq_print body]
  | .doc text, w => by rw [apply, Layout.printed, foldl_line]

/-- Layouts are written as their lines at the present level, and the level stays. -/
theorem applyAll_eq_print : (ls : List Layout) → (w : Writer) →
    w.applyAll ls = w.print (Layout.printedAll w.level ls)
  | [], w => by rw [applyAll, Layout.printedAll, print_nil]
  | l :: ls, w => by
    rw [applyAll, Layout.printedAll, print_append, apply_eq_print l, applyAll_eq_print ls]
    rfl

end

/-- Goes one level back, where there is one. -/
def flatten? (w : Writer) : Option Writer :=
  if w.level = 0 then none else some w.flatten

mutual

/-- Adds a layout as `apply` does, but gives up where it would leave a level that is not there. -/
def applied? (w : Writer) : Layout → Option Writer
  | .line text => some (w.line text)
  | .blank => some w.blank
  | .block header body => do
    let inner ← ((w.line header).line "\x7b").deepen.appliedAll? body
    let outer ← inner.flatten?
    return outer.line "\x7d"
  | .region name body => do
    let inner ← (w.line ("#region " ++ name)).appliedAll? body
    return inner.line "#endregion"
  | .deeper body => do
    let inner ← w.deepen.appliedAll? body
    inner.flatten?
  | .sequence body => w.appliedAll? body
  | .doc text => some ((Layout.docLines text).foldl line w)

/-- Adds layouts in order, as `applied?` does. -/
def appliedAll? (w : Writer) : List Layout → Option Writer
  | [] => some w
  | l :: ls => do
    let next ← w.applied? l
    next.appliedAll? ls

end

/-- What was written one level deeper can be left again. -/
lemma flatten?_applyAll {w : Writer} {ls} :
    (w.deepen.applyAll ls).flatten? = some (w.deepen.applyAll ls).flatten := by
  rw [flatten?, applyAll_eq_print]
  exact if_neg (Nat.succ_ne_zero w.level)

mutual

/-- No layout leaves a level that is not there. -/
theorem applied?_eq : (l : Layout) → (w : Writer) → w.applied? l = some (w.apply l)
  | .line _, _ => rfl
  | .blank, _ => rfl
  | .block header body, w => by
    rw [applied?, apply, appliedAll?_eq body, Option.bind_eq_bind, Option.bind_some,
      flatten?_applyAll]
    rfl
  | .region name body, w => by
    rw [applied?, apply, appliedAll?_eq body]
    rfl
  | .deeper body, w => by
    rw [applied?, apply, appliedAll?_eq body, Option.bind_eq_bind, Option.bind_some,
      flatten?_applyAll]
  | .sequence body, w => by rw [applied?, apply, appliedAll?_eq body]
  | .doc _, _ => rfl

/-- Nor do layouts in order. -/
theorem appliedAll?_eq : (ls : List Layout) → (w : Writer) → w.appliedAll? ls = some (w.applyAll ls)
  | [], _ => rfl
  | l :: ls, w => by
    rw [appliedAll?, applyAll, applied?_eq l, Option.bind_eq_bind, Option.bind_some,
      appliedAll?_eq ls]

end

/-- The text of layouts is that of their lines. -/
lemma render_eq_join (indent) (ls : List Layout) :
    Layout.render indent ls =
      String.join ((Layout.printedAll 0 ls).map fun l => l.written indent ++ "\n") := by
  rw [Layout.render, applyAll_eq_print, print]
  exact String.empty_append

end Writer

/-- Nothing but spaces and tabs stands for depth. -/
lemma Indent.mem_text {indent : Indent} {level c} (h : c ∈ (indent.text level).toList) :
    c = ' ' ∨ c = '\t' := by
  have hunit : ∀ c ∈ indent.unit.toList, c = ' ' ∨ c = '\t' := by
    intro c hc
    cases indent with
    | spaces width =>
      rw [Indent.unit, String.toList_ofList] at hc
      exact .inl (List.eq_of_mem_replicate hc)
    | tab => exact .inr (by simpa [Indent.unit] using hc)
  induction level with
  | zero => simp [Indent.text] at h
  | succ level ih =>
    rw [Indent.text, String.toList_append] at h
    exact (List.mem_append.1 h).elim (hunit c) ih

end SharpSmith
