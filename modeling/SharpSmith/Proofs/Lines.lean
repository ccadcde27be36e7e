import SharpSmith.Proofs.Depths
import SharpSmith.Proofs.Pieces

/-!
# Lines and layouts

Writing a layout adds lines to a text, and each line is read apart from the next one: a comment has
no tokens, a directive is a token of its own, and any other line is read like the piece it is.
`Tidy` says of layouts that the text they add holds the given fragments and is neutral, and that the
same is read of it whatever depth it is written at and whatever depth is written as.
-/

namespace SharpSmith.Fragment

/-- What is read of a line, whatever the lines after it are. -/
def ReadsLine (s : String) (v : Option (List (TokenKind × String))) : Prop :=
  ∀ r, bareTokens? true true (s.toList ++ '\n' :: r) = chain v (bareTokens? true true r)

/-- Reading goes on at the start of a line after a line break. -/
lemma bareTokens?_newline {directives lineStart r} :
    bareTokens? directives lineStart ('\n' :: r) = bareTokens? directives true r := by
  have hblank : Text.isBlank '\n' = true := by decide
  rw [bareTokens?_isBlank hblank, beq_self_eq_true, Bool.or_true]

/-- White space at the start of a line is passed over. -/
lemma bareTokens?_indent {directives r} {cs : List Char} (h : ∀ c ∈ cs, Text.isBlank c = true) :
    bareTokens? directives true (cs ++ r) = bareTokens? directives true r := by
  induction cs with
  | nil => rfl
  | cons c cs ih =>
    rw [List.cons_append, bareTokens?_isBlank (h c (.head _)), Bool.true_or]
    exact ih fun x hx => h x (.tail _ hx)

/-- A line that holds the given fragments. -/
def Line (s : String) (fs : List String) : Prop :=
  ∃ v, Part fs v ∧ ReadsLine s v

/-- A piece that a line break ends makes up a line. -/
lemma Reads.line {p s fs} (h : Reads true p s fs) (hp : p '\n' = true) : Line s fs := by
  obtain ⟨v, hv, hread⟩ := h
  refine ⟨v, hv, fun r => ?_⟩
  rw [hread true true _ (fun _ => rfl), bareTokens?_newline]
  rintro x ⟨⟩
  exact hp

/-- A line with one sign reads as that sign. -/
lemma readsLine_lone {sign} (h : sign ∈ loneSigns) :
    ReadsLine sign (some [(.punctuator, sign)]) := by
  intro r
  rw [bareTokens?_lone h, bareTokens?_newline]

/-- A comment to the end of its line has no tokens. -/
lemma readsLine_comment {s : String} {cs : List Char} (hs : s.toList = '/' :: '/' :: cs)
    (h : ∀ c ∈ cs, c ≠ '\n') : ReadsLine s (some []) := by
  intro r
  have hstop : ('/' :: (cs ++ '\n' :: r)).takeWhile (· != '\n') = '/' :: cs := by
    rw [← List.cons_append]
    refine Text.takeWhile_append_stop (fun c hc => ?_) (fun x hx => ?_)
    · cases hc with
      | head => rfl
      | tail _ hc => simpa using h c hc
    · cases hx
      rfl
  have hl : lexeme true true '/' ('/' :: (cs ++ '\n' :: r)) = .ok ⟨.blank, cs.length + 1⟩ := by
    have hb : Text.isBlank '/' = false := by decide
    simp only [lexeme, hb, hstop]
    simp
  rw [hs, chain_nil, List.cons_append, List.cons_append, bareTokens?_blank hl,
    List.drop_succ_cons, List.drop_left, bareTokens?_newline]

/-- A directive is a line of its own. -/
lemma readsLine_directive {s : String} {cs : List Char} (hs : s.toList = '#' :: cs)
    (h : ∀ c ∈ cs, c ≠ '\n') : ReadsLine s (some [(.directive, s)]) := by
  intro r
  have hstop : (cs ++ '\n' :: r).takeWhile (· != '\n') = cs := by
    refine Text.takeWhile_append_stop (fun c hc => by simpa using h c hc) (fun x hx => ?_)
    cases hx
    rfl
  have hl : lexeme true true '#' (cs ++ '\n' :: r) = .ok ⟨.token .directive, cs.length⟩ := by
    have hb : Text.isBlank '#' = false := by decide
    simp only [lexeme, hb, hstop]
    simp
  rw [hs, List.cons_append, bareTokens?_token hl, List.drop_left, List.take_left,
    bareTokens?_newline, ← hs, String.ofList_toList]
  cases bareTokens? true true r <;> rfl

end SharpSmith.Fragment

namespace SharpSmith

open Fragment

/-- Indentation is white space. -/
lemma Indent.isBlank_text {indent : Indent} {level} :
    ∀ c ∈ (indent.text level).toList, Text.isBlank c = true := by
  intro c hc
  rcases Indent.mem_text hc with rfl | rfl <;> decide

/-- From one writer to the other a text has been added, of which `v` is read. -/
def Wrote (w w' : Writer) (v : Option (List (TokenKind × String))) : Prop :=
  ∃ text : String, w' = { w with buffer := w.buffer ++ text } ∧
    ∀ r, bareTokens? true true (text.toList ++ r) = chain v (bareTokens? true true r)

/-- A writer that has written nothing adds nothing. -/
lemma Wrote.refl {w} : Wrote w w (some []) :=
  ⟨"", by rw [String.append_empty], fun r => by simp⟩

/-- What is written in two steps is read as what each of them writes. -/
lemma Wrote.trans {w w' w'' v v'} (h : Wrote w w' v) (h' : Wrote w' w'' v') :
    Wrote w w'' (chain v v') := by
  obtain ⟨text, rfl, hread⟩ := h
  obtain ⟨text', rfl, hread'⟩ := h'
  refine ⟨text ++ text', by rw [String.append_assoc], fun r => ?_⟩
  rw [String.toList_append, List.append_assoc, hread, hread', chain_assoc]

/-- A line that is written is read as the line is. -/
lemma Wrote.line {w s v} (h : ReadsLine s v) : Wrote w (w.line s) v := by
  refine ⟨w.indent.text w.level ++ s ++ "\n", ?_, fun r => ?_⟩
  · rw [Writer.line, String.append_assoc, String.append_assoc, String.append_assoc]
  · rw [String.toList_append, String.toList_append, List.append_assoc, List.append_assoc,
      bareTokens?_indent Indent.isBlank_text]
    exact h r

/-- A blank line that is written reads as nothing. -/
lemma Wrote.blank {w} : Wrote w w.blank (some []) := by
  refine ⟨"\n", rfl, fun r => ?_⟩
  rw [chain_nil]
  exact bareTokens?_newline

/-- What is written one level deeper is read as it is on any level. -/
lemma Wrote.deeper {w w' v} (h : Wrote w.deepen w' v) : Wrote w w'.flatten v := by
  obtain ⟨text, rfl, hread⟩ := h
  exact ⟨text, rfl, hread⟩

/-- Layouts that add a neutral text with the given fragments, of which the same is read wherever it
is added. -/
def Tidy (ls : List Layout) (fs : List String) : Prop :=
  ∃ v, Part fs v ∧ ∀ w : Writer, Wrote w (w.applyAll ls) v

/-- Layouts after others are applied after them. -/
lemma applyAll_append {w : Writer} {ls ms} :
    w.applyAll (ls ++ ms) = (w.applyAll ls).applyAll ms := by
  induction ls generalizing w with
  | nil => rw [List.nil_append, Writer.applyAll]
  | cons l ls ih => rw [List.cons_append, Writer.applyAll, Writer.applyAll, ih]

/-- One layout is applied. -/
lemma applyAll_singleton {w : Writer} {l} : w.applyAll [l] = w.apply l := by
  rw [Writer.applyAll, Writer.applyAll]

/-- No layouts hold no fragments. -/
lemma Tidy.nil : Tidy [] [] := by
  refine ⟨some [], .tokens .nil, fun w => ?_⟩
  rw [Writer.applyAll]
  exact .refl

/-- Layouts after others hold the fragments of those and then their own. -/
lemma Tidy.append {ls ms fs gs} (hl : Tidy ls fs) (hm : Tidy ms gs) :
    Tidy (ls ++ ms) (fs ++ gs) := by
  obtain ⟨v, hv, hw⟩ := hl
  obtain ⟨v', hv', hw'⟩ := hm
  refine ⟨chain v v', hv.append hv', fun w => ?_⟩
  rw [applyAll_append]
  exact (hw w).trans (hw' (w.applyAll ls))

/-- A line holds its fragments. -/
lemma Tidy.line {s fs} (h : Line s fs) : Tidy [.line s] fs := by
  obtain ⟨v, hv, hread⟩ := h
  refine ⟨v, hv, fun w => ?_⟩
  rw [applyAll_singleton, Writer.apply]
  exact .line hread

/-- A blank line holds no fragment. -/
lemma Tidy.blank : Tidy [.blank] [] := by
  refine ⟨some [], .tokens .nil, fun w => ?_⟩
  rw [applyAll_singleton, Writer.apply]
  exact .blank

/-- A block holds the fragments of its header and then those of its body. -/
lemma Tidy.block {header body fs gs} (hh : Line header fs) (hb : Tidy body gs) :
    Tidy [.block header body] (fs ++ gs) := by
  obtain ⟨v, hv, hread⟩ := hh
  obtain ⟨v', hv', hw⟩ := hb
  refine ⟨_, hv.append (hv'.between fun bs h => .group .braces h .nil), fun w => ?_⟩
  have ho : Wrote (w.line header) ((w.line header).line "\x7b") (some [(.punctuator, "\x7b")]) :=
    .line (readsLine_lone (by decide))
  have hbody := (hw ((w.line header).line "\x7b").deepen).deeper
  rw [applyAll_singleton, Writer.apply]
  exact (Wrote.line hread).trans (ho.trans (hbody.trans (.line (readsLine_lone (by decide)))))

/-- A region whose name has no line break holds the fragments of its body. -/
lemma Tidy.region {name body fs} (hn : ∀ c ∈ name.toList, c ≠ '\n') (hb : Tidy body fs) :
    Tidy [.region name body] fs := by
  have hs : ("#region " ++ name).toList = '#' :: ("region ".toList ++ name.toList) := by
    rw [String.toList_append]
    rfl
  have hs' : "#endregion".toList = '#' :: "endregion".toList := rfl
  have hopen : ReadsLine ("#region " ++ name) (some [(.directive, "#region " ++ name)]) := by
    refine readsLine_directive hs (List.forall_mem_append.2 ⟨?_, hn⟩)
    simp
  have hclose : ReadsLine "#endregion" (some [(.directive, "#endregion")]) := by
    refine readsLine_directive hs' ?_
    simp
  obtain ⟨v, hv, hw⟩ := hb
  have hpart : Part fs (chain (some [(.directive, "#region " ++ name)])
      (chain v (some [(.directive, "#endregion")]))) :=
    hv.between fun bs h => .region h .nil
  refine ⟨_, hpart, fun w => ?_⟩
  rw [applyAll_singleton, Writer.apply]
  exact (Wrote.line hopen).trans ((hw (w.line ("#region " ++ name))).trans (.line hclose))

/-- The lines of a text have no line break in them. -/
lemma newline_of_mem_lines {current cs : List Char} (h : ∀ c ∈ current, c ≠ '\n') :
    ∀ l ∈ Text.linesFrom current cs, ∀ c ∈ l, c ≠ '\n' := by
  induction cs generalizing current with
  | nil =>
    unfold Text.linesFrom
    split
    · simp
    · simpa using h
  | cons x cs ih =>
    unfold Text.linesFrom
    split
    case isTrue =>
      rw [List.forall_mem_cons]
      refine ⟨fun c hc => ?_, ih nofun⟩
      split at hc
      · exact h c (List.mem_of_mem_tail (List.mem_reverse.1 hc))
      · exact h c (List.mem_reverse.1 hc)
    case isFalse hx => exact ih (List.forall_mem_cons.2 ⟨hx, h⟩)

/-- What is left of a text between white space was in the text. -/
lemma mem_of_mem_trim {cs : List Char} {c} (h : c ∈ Text.trim cs) : c ∈ cs := by
  unfold Text.trim Text.trimEnd Text.trimStart at h
  have h := (List.dropWhile_sublist _).mem (List.mem_reverse.1 h)
  exact (List.dropWhile_sublist _).mem (List.mem_reverse.1 h)

/-- Escaping a character brings in no line break. -/
lemma newline_of_escapeChar {c x} (h : x ∈ Layout.escapeChar c) (hc : c ≠ '\n') : x ≠ '\n' := by
  unfold Layout.escapeChar at h
  split at h
  · rintro rfl
    simp at h
  split at h
  · rintro rfl
    simp at h
  split at h
  · rintro rfl
    simp at h
  · rw [List.mem_singleton.1 h]
    exact hc

/-- The lines of a documentation comment are comments. -/
lemma comment_of_mem_docLines {text} : ∀ s ∈ Layout.docLines text,
    ∃ cs, s.toList = '/' :: '/' :: cs ∧ ∀ c ∈ cs, c ≠ '\n' := by
  intro s hs
  simp only [Layout.docLines, List.cons_append, List.mem_cons, List.mem_append, List.mem_map,
    List.not_mem_nil, or_false] at hs
  rcases hs with rfl | ⟨l, hl, rfl⟩ | rfl
  · exact ⟨"/ <summary>".toList, rfl, by simp⟩
  · refine ⟨"/ ".toList ++ (Text.trim l).flatMap Layout.escapeChar, by simp,
      List.forall_mem_append.2 ⟨by simp, fun x hx => ?_⟩⟩
    obtain ⟨c, hc, hx⟩ := List.mem_flatMap.1 hx
    exact newline_of_escapeChar hx (newline_of_mem_lines (by simp) l hl c (mem_of_mem_trim hc))
  · exact ⟨"/ </summary>".toList, rfl, by simp⟩

/-- A line of a documentation comment reads as nothing. -/
lemma readsLine_doc {text} : ∀ s ∈ Layout.docLines text, ReadsLine s (some []) := by
  intro s hs
  obtain ⟨cs, hcs, hnone⟩ := comment_of_mem_docLines s hs
  exact readsLine_comment hcs hnone

/-- A documentation comment holds no fragment. -/
lemma Tidy.doc {text} : Tidy [.doc text] [] := by
  have hlines : ∀ ss : List String, (∀ s ∈ ss, ReadsLine s (some [])) →
      ∀ w, Wrote w (ss.foldl Writer.line w) (some []) := by
    intro ss h
    induction ss with
    | nil => exact fun w => .refl
    | cons s ss ih =>
      intro w
      rw [List.foldl_cons]
      exact (Wrote.line (h s (.head _))).trans (ih (fun t ht => h t (.tail _ ht)) _)
  refine ⟨some [], .tokens .nil, fun w => ?_⟩
  rw [applyAll_singleton, Writer.apply]
  exact hlines _ readsLine_doc w

/-- A blank line between layouts does not change which fragments they hold. -/
lemma Tidy.separate {ls ms fs gs} (hl : Tidy ls fs) (hm : Tidy ms gs) :
    Tidy (Layout.separate ls ms) (fs ++ gs) := by
  unfold Layout.separate
  split
  case isTrue h =>
    rw [List.isEmpty_iff] at h
    subst h
    have := hl.append hm
    rwa [List.append_nil] at this
  split
  case isTrue h =>
    rw [List.isEmpty_iff] at h
    subst h
    exact hl.append hm
  case isFalse =>
    have := hl.append (Tidy.blank.append hm)
    simpa using this

/-- Layouts of several things with blank lines between. -/
lemma Tidy.separated {α : Type} {layout : α → List Layout} {fs : α → List String} {xs : List α}
    (h : ∀ x ∈ xs, Tidy (layout x) (fs x)) :
    Tidy (Layout.separated (xs.map layout)) (xs.flatMap fs) := by
  have hfold : ∀ ls gs, Tidy ls gs →
      Tidy ((xs.map layout).foldl Layout.separate ls) (gs ++ xs.flatMap fs) := by
    induction xs with
    | nil =>
      intro ls gs hl
      simpa using hl
    | cons x xs ih =>
      intro ls gs hl
      rw [List.map_cons, List.foldl_cons, List.flatMap_cons, ← List.append_assoc]
      exact ih (fun y hy => h y (.tail _ hy)) _ _ (hl.separate (h x (.head _)))
  exact hfold [] [] .nil

/-- The layouts of several things one after the other. -/
lemma Tidy.map {α : Type} {layout : α → Layout} {fs : α → List String} {xs : List α}
    (h : ∀ x ∈ xs, Tidy [layout x] (fs x)) : Tidy (xs.map layout) (xs.flatMap fs) := by
  induction xs with
  | nil => exact .nil
  | cons x xs ih =>
    rw [List.map_cons, List.flatMap_cons, ← List.singleton_append]
    exact (h x (.head _)).append (ih fun y hy => h y (.tail _ hy))

/-- Of the text of tidy layouts the same is read whatever depth is written as. -/
lemma Tidy.read {ls fs} (h : Tidy ls fs) :
    ∃ v, Part fs v ∧ ∀ indent, bareTokens? true true (Layout.render indent ls).toList = v := by
  obtain ⟨v, hv, hw⟩ := h
  refine ⟨v, hv, fun indent => ?_⟩
  obtain ⟨text, htext, hread⟩ := hw (Writer.new indent)
  have htext : Layout.render indent ls = text := by
    rw [Layout.render, htext]
    exact String.empty_append
  have hread := hread []
  rw [List.append_nil, bareTokens?_nil] at hread
  rw [htext, hread]
  cases v <;> simp [chain]

/-- A file of tidy layouts is accepted just if all its fragments have tokens. -/
theorem Tidy.verify_iff {indent ls fs} (h : Tidy ls fs) :
    Source.verify (Layout.render indent ls) = .ok () ↔ ∀ text ∈ fs, Lexes text := by
  obtain ⟨v, hv, hread⟩ := h.read
  have hneutral : ∀ bs, bareTokens? true true (Layout.render indent ls).toList = some bs →
      Neutral bs := fun bs hbs => hv.neutral bs (hread indent ▸ hbs)
  rw [Source.verify_eq_ok_iff hneutral, hread indent, hv.isSome_iff]

end SharpSmith
