import SharpSmith.Proofs.Tiling

/-!
# Places in a text

A stretch of a text lies within it when it ends no later than the text and both of its ends are
between two characters. Parts of a text put together show where they lie.
-/

namespace SharpSmith

/-- The characters of a string have its bytes. -/
lemma Text.byteLength_toList (s : String) : Text.byteLength s.toList = s.utf8ByteSize := by
  rw [Text.byteLength_eq, String.ofList_toList]

namespace Span

/-- A stretch that does not go past the end of a text and cuts none of its characters. -/
structure Within (s : Span) (text : String) : Prop where
  finish_le : s.finish ≤ text.utf8ByteSize
  offset : (⟨s.offset⟩ : String.Pos.Raw).IsValid text
  finish : (⟨s.finish⟩ : String.Pos.Raw).IsValid text

/-- A place between two parts of a text is between two of its characters. -/
lemma isValid_of_append {before after : List Char} {text : String} {n : Nat}
    (e : text.toList = before ++ after) (hn : n = Text.byteLength before) :
    (⟨n⟩ : String.Pos.Raw).IsValid text := by
  rw [String.Pos.Raw.isValid_iff_exists_append]
  refine ⟨String.ofList before, String.ofList after, ?_, ?_⟩
  · rw [← String.toList_inj, e]
    simp
  · rw [hn, Text.byteLength_eq]
    rfl

/-- A part of a text lies within it. -/
lemma within_of_append {before part after : List Char} {text : String} {s : Span}
    (e : text.toList = before ++ (part ++ after)) (ho : s.offset = Text.byteLength before)
    (hl : s.length = Text.byteLength part) : s.Within text where
  finish_le := by
    rw [Span.finish, ← Text.byteLength_toList, e, ho, hl, Text.byteLength_append,
      Text.byteLength_append]
    omega
  offset := isValid_of_append e ho
  finish := by
    rw [← List.append_assoc] at e
    refine isValid_of_append e ?_
    rw [Span.finish, ho, hl, Text.byteLength_append]

/-- A stretch lies within a part of a text that starts at byte `offset`. -/
def Covers (offset : Nat) (cs : List Char) (s : Span) : Prop :=
  ∃ before part after, cs = before ++ (part ++ after) ∧
    s.offset = offset + Text.byteLength before ∧ s.length = Text.byteLength part

/-- A stretch within the end of a text lies within the text. -/
lemma Covers.after {offset cs s} (before : List Char)
    (h : Covers (offset + Text.byteLength before) cs s) : Covers offset (before ++ cs) s := by
  obtain ⟨front, part, after, rfl, ho, hl⟩ := h
  refine ⟨before ++ front, part, after, by simp, ?_, hl⟩
  rw [ho, Text.byteLength_append, Nat.add_assoc]

/-- A stretch that lies within the characters of a text lies within the text. -/
lemma Covers.within {text : String} {s : Span} (h : Covers 0 text.toList s) : s.Within text := by
  obtain ⟨before, part, after, e, ho, hl⟩ := h
  exact within_of_append e (ho.trans (Nat.zero_add _)) hl

end Span

end SharpSmith
