import SharpSmith.Text.Basic

/-!
# Layout

Printed source is laid out as lines, blank lines, and blocks of further layout. Writing a layout
puts each line at the depth of the blocks around it.
-/

namespace SharpSmith

/-- What one level of depth is written as. -/
inductive Indent where
  | spaces (width : Nat)
  | tab
  deriving Repr, DecidableEq

namespace Indent

/-- Four spaces, as is common in C#. -/
def standard : Indent :=
  .spaces 4

/-- Text is indented in the standard way unless something else is said. -/
instance : Inhabited Indent := ⟨standard⟩

/-- The text of one level of depth. -/
def unit : Indent → String
  | .spaces width => String.ofList (List.replicate width ' ')
  | .tab => "\t"

/-- The text of several levels of depth. -/
def text (indent : Indent) : (level : Nat) → String
  | 0 => ""
  | level + 1 => indent.unit ++ indent.text level

end Indent

/-- A piece of printed source: a line, a blank line, a header with a braced body, a named region, a
body one level deeper, a body at the same level, or a documentation comment. -/
inductive Layout where
  | line (text : String)
  | blank
  | block (header : String) (body : List Layout)
  | region (name : String) (body : List Layout)
  | deeper (body : List Layout)
  | sequence (body : List Layout)
  | doc (text : String)
  deriving Repr, Inhabited

namespace Layout

/-- Puts a layout after others, with a blank line between the two when there are others. -/
def separate (before group : List Layout) : List Layout :=
  if group.isEmpty then before
  else if before.isEmpty then group
  else before ++ .blank :: group

/-- The groups in order, with a blank line between each two that are not empty. -/
def separated (groups : List (List Layout)) : List Layout :=
  groups.foldl separate []

/-- A character as it is written in the text of a documentation comment. -/
def escapeChar (c : Char) : List Char :=
  if c = '&' then ['&', 'a', 'm', 'p', ';']
  else if c = '<' then ['&', 'l', 't', ';']
  else if c = '>' then ['&', 'g', 't', ';']
  else [c]

/-- The lines of a documentation comment: a summary with a line for each line of the text. -/
def docLines (text : String) : List String :=
  "/// <summary>" ::
    (Text.lines text.toList).map (fun l =>
      "/// " ++ String.ofList ((Text.trim l).flatMap escapeChar)) ++ ["/// </summary>"]

end Layout

/-- Text being written: how depth is written, the present depth, and the text so far. -/
structure Writer where
  indent : Indent
  level : Nat
  buffer : String
  deriving Repr, Inhabited

namespace Writer

/-- A writer of an empty text. -/
def new (indent : Indent) : Writer :=
  ⟨indent, 0, ""⟩

/-- Adds a line at the present depth. -/
def line (w : Writer) (text : String) : Writer :=
  { w with buffer := w.buffer ++ w.indent.text w.level ++ text ++ "\n" }

/-- Adds a blank line, which is never indented. -/
def blank (w : Writer) : Writer :=
  { w with buffer := w.buffer ++ "\n" }

/-- Goes one level deeper. -/
def deepen (w : Writer) : Writer :=
  { w with level := w.level + 1 }

/-- Goes one level back, if there is one. -/
def flatten (w : Writer) : Writer :=
  { w with level := w.level - 1 }

mutual

/-- Adds a layout at the present depth. -/
def apply (w : Writer) : Layout → Writer
  | .line text => w.line text
  | .blank => w.blank
  | .block header body => ((((w.line header).line "\x7b").deepen.applyAll body).flatten).line "\x7d"
  | .region name body => ((w.line ("#region " ++ name)).applyAll body).line "#endregion"
  | .deeper body => (w.deepen.applyAll body).flatten
  | .sequence body => w.applyAll body
  | .doc text => (Layout.docLines text).foldl line w

/-- Adds layouts in order. -/
def applyAll (w : Writer) : List Layout → Writer
  | [] => w
  | l :: ls => (w.apply l).applyAll ls

end

end Writer

/-- The text of layouts. -/
def Layout.render (indent : Indent) (layouts : List Layout) : String :=
  ((Writer.new indent).applyAll layouts).buffer

end SharpSmith
