import SharpSmith.Build.Attribute
import SharpSmith.Proofs.Calls
import SharpSmith.Proofs.Naming

/-!
# Applied names

An attribute is applied under the name of its type without the ending `Attribute`. What that leaves
of an identifier is an identifier again, with two exceptions: the mark alone may be left of an
escaped name, and a reserved word of a name that is not escaped. `applied_name_fault` says that
there are no others, `applied_name_reserved` that these do happen.
-/

namespace SharpSmith

/-- A name is applied as it is, or without the ending when something else is left. -/
lemma attributeName_cases (name : String) :
    Identifier.attributeName name = name ∨
      Identifier.attributeName name ≠ "" ∧ name = Identifier.attributeName name ++ "Attribute" := by
  unfold Identifier.attributeName
  dsimp only
  split
  case isFalse => exact .inl rfl
  case isTrue h =>
    simp only [Bool.and_eq_true, List.isSuffixOf_iff_suffix, bne_iff_ne] at h
    obtain ⟨⟨w, hw⟩, hlength⟩ := h
    have htake : name.toList.take (name.toList.length - Identifier.attributeEnding.length) = w := by
      rw [← hw, List.length_append, Nat.add_sub_cancel, List.take_left]
    right
    rw [htake]
    constructor
    · intro hempty
      rw [String.ofList_eq_empty_iff.1 hempty] at hw
      exact hlength (congrArg List.length hw.symm)
    · apply String.toList_inj.1
      rw [String.toList_append, String.toList_ofList, ← hw]
      rfl

/-- The ending is left out of every name that it ends and that it is not all of. -/
lemma attributeName_append {base : String} (h : base ≠ "") :
    Identifier.attributeName (base ++ "Attribute") = base := by
  have hcs : (base ++ "Attribute").toList = base.toList ++ Identifier.attributeEnding :=
    String.toList_append
  have hlength : (base.toList ++ Identifier.attributeEnding).length ≠
      Identifier.attributeEnding.length := by
    simpa using h
  unfold Identifier.attributeName
  dsimp only
  rw [hcs, if_pos, List.length_append, Nat.add_sub_cancel, List.take_left, String.ofList_toList]
  rw [Bool.and_eq_true, List.isSuffixOf_iff_suffix, bne_iff_ne]
  exact ⟨List.suffix_append _ _, hlength⟩

/-- The first part of an identifier is the mark alone, a reserved word or an identifier. -/
lemma IsIdentifier.of_append {w v : List Char} (h : IsIdentifier (w ++ v)) (hw : w ≠ []) :
    w = ['@'] ∨ IsWord w ∧ Identifier.isKeyword (String.ofList w) = true ∨ IsIdentifier w := by
  have word : ∀ {w}, IsWord (w ++ v) → w ≠ [] → IsWord w := fun h hw => by
    have htake := h.take (mt List.length_eq_zero_iff.1 hw)
    rwa [List.take_left] at htake
  obtain ⟨c, w, rfl⟩ := List.exists_cons_of_ne_nil hw
  cases h with
  | bare hword =>
    cases hk : Identifier.isKeyword (String.ofList (c :: w)) with
    | true => exact .inr (.inl ⟨word hword hw, rfl⟩)
    | false => exact .inr (.inr (.bare (word hword hw) hk))
  | escaped hword =>
    rcases eq_or_ne w [] with rfl | hw
    · exact .inl rfl
    · exact .inr (.inr (.escaped (word hword hw)))

/-- A reserved word is refused as that. -/
lemma identifierFault?_of_isKeyword {w : List Char} (hw : IsWord w)
    (hk : Identifier.isKeyword (String.ofList w) = true) :
    Identifier.identifierFault? w = some .reserved := by
  unfold Identifier.identifierFault?
  split
  case h_1 => exact absurd rfl hw.head?_ne
  case h_2 =>
    cases hw with
    | mk hc hw =>
      rw [Identifier.bareFault?, if_neg (by simpa using hc), if_neg (by simpa using hw), hk]
      rfl

/-- What an identifier is applied as: the mark alone, a reserved word, or an identifier again. -/
lemma fault?_attributeName {name : String} (h : Identifier.fault? name = none) :
    name = "@Attribute" ∧ Identifier.fault? (Identifier.attributeName name) = some .empty ∨
      (∃ k ∈ Identifier.keywords, name = k ++ "Attribute") ∧
        Identifier.fault? (Identifier.attributeName name) = some .reserved ∨
      Identifier.fault? (Identifier.attributeName name) = none := by
  rcases attributeName_cases name with hname | ⟨hne, hname⟩
  · rw [hname]
    exact .inr (.inr h)
  · generalize Identifier.attributeName name = base at hne hname ⊢
    have hidentifier := identifierFault?_eq_none_iff.1 h
    rw [hname, String.toList_append] at hidentifier
    rcases hidentifier.of_append (by simpa using hne) with hbase | ⟨hword, hbase⟩ | hbase
    · obtain rfl : base = "@" := String.toList_inj.1 hbase
      exact .inl ⟨hname, rfl⟩
    · refine .inr (.inl ⟨⟨base, ?_, hname⟩, identifierFault?_of_isKeyword hword hbase⟩)
      rwa [String.ofList_toList, Identifier.isKeyword, List.contains_iff_mem] at hbase
    · exact .inr (.inr (identifierFault?_eq_none_iff.2 hbase))

/-- Of the mark with the ending the mark is left. -/
lemma fault?_of_mark {name : String} (h : name = "@Attribute") :
    Identifier.fault? (Identifier.attributeName name) = some .empty := by
  have hname : name = "@" ++ "Attribute" := h
  rw [hname, attributeName_append (by decide)]
  rfl

/-- Of a reserved word with the ending the reserved word is left. -/
lemma fault?_of_keyword {name : String} (hfault : Identifier.fault? name = none)
    (h : ∃ k ∈ Identifier.keywords, name = k ++ "Attribute") :
    Identifier.fault? (Identifier.attributeName name) = some .reserved := by
  obtain ⟨k, hk, rfl⟩ := h
  have hreserved : Identifier.isKeyword (String.ofList k.toList) = true := by
    rwa [String.ofList_toList, Identifier.isKeyword, List.contains_iff_mem]
  have hne : k ≠ "" := by
    rintro rfl
    exact absurd hk (by decide)
  have hidentifier := identifierFault?_eq_none_iff.1 hfault
  rw [String.toList_append] at hidentifier
  rw [attributeName_append hne]
  rcases hidentifier.of_append (by simpa using hne) with hmark | ⟨hword, -⟩ | hbase
  · rw [hmark, isKeyword_escaped] at hreserved
    cases hreserved
  · exact identifierFault?_of_isKeyword hword hreserved
  · rw [hbase.isKeyword] at hreserved
    cases hreserved

namespace Build

/-- The type that a call applies as an attribute. -/
def AttributeStep.applied? : AttributeStep → Option TypeRef
  | .add type _ | .addBare type => some type
  | .fail _ | .probe => none

/-- A call that succeeds puts the attribute that it applies at the end. -/
lemma AttributeStep.attributes_of_ok {act : AttributeStep} {d type} (h : act.applied? = some type)
    (hok : (act.run d).result = .ok ()) :
    ∃ args, (act.run d).state.attributes =
      d.attributes ++ [⟨Identifier.attributeName type.name, args⟩] := by
  cases act with
  | add type' texts =>
    cases h
    cases hargs : Expression.parseAll texts with
    | ok args =>
      have hrun : run (.add type texts) d = .done (d.push type args) := by rw [run, hargs]
      rw [hrun]
      exact ⟨args, rfl⟩
    | error e =>
      rw [run, hargs] at hok
      cases hok
  | addBare =>
    cases h
    exact ⟨[], rfl⟩
  | fail | probe => cases h

/-- A call that applies an attribute type whose name is an identifier writes an identifier that is
not reserved, but for two kinds of names: of `@Attribute` it leaves the mark, and of a reserved word
with the ending the reserved word. -/
theorem applied_name_fault {act : AttributeStep} {d : AttributesDraft} {type : TypeRef}
    (happlied : act.applied? = some type) (hok : (act.run d).result = .ok ())
    (hname : Identifier.fault? type.name = none) :
    ∃ a, (act.run d).state.attributes = d.attributes ++ [a] ∧
      a.name = Identifier.attributeName type.name ∧
      (Identifier.fault? a.name = some .empty ↔ type.name = "@Attribute") ∧
      (Identifier.fault? a.name = some .reserved ↔
        ∃ k ∈ Identifier.keywords, type.name = k ++ "Attribute") ∧
      (Identifier.fault? a.name = none ↔
        type.name ≠ "@Attribute" ∧ ¬∃ k ∈ Identifier.keywords, type.name = k ++ "Attribute") := by
  obtain ⟨args, hattributes⟩ := AttributeStep.attributes_of_ok happlied hok
  refine ⟨_, hattributes, rfl, ?_⟩
  have hmark : type.name = "@Attribute" → _ := fault?_of_mark
  have hkeyword := fault?_of_keyword hname
  have hcases := fault?_attributeName hname
  generalize Identifier.fault? (Identifier.attributeName type.name) = fault at *
  refine ⟨⟨fun h => ?_, hmark⟩, ⟨fun h => ?_, hkeyword⟩, fun h => ?_, fun h => ?_⟩
  · rcases hcases with ⟨e, -⟩ | ⟨-, e⟩ | e
    · exact e
    · cases h.symm.trans e
    · cases h.symm.trans e
  · rcases hcases with ⟨-, e⟩ | ⟨hk, -⟩ | e
    · cases h.symm.trans e
    · exact hk
    · cases h.symm.trans e
  · constructor
    · intro e
      cases h.symm.trans (hmark e)
    · intro e
      cases h.symm.trans (hkeyword e)
  · rcases hcases with ⟨e, -⟩ | ⟨hk, -⟩ | e
    · exact absurd e h.1
    · exact absurd hk h.2
    · exact e

/-- The attribute of the framework that marks a type as serializable. -/
def serializable : TypeRef :=
  .named "SerializableAttribute" .classType

/-- An attribute called `SerializableAttribute` is applied under a name without fault. -/
theorem applied_name_fault_serializable :
    ∃ a, ((AttributeStep.addBare serializable).run ⟨.new "Shop", []⟩).state.attributes = [a] ∧
      a.name = "Serializable" ∧ Identifier.fault? a.name = none := by
  have happlied : (AttributeStep.addBare serializable).applied? = some serializable := rfl
  have hok : ((AttributeStep.addBare serializable).run ⟨.new "Shop", []⟩).result = .ok () := rfl
  have hname : Identifier.fault? serializable.name = none := by decide +kernel
  have hstripped : Identifier.attributeName serializable.name = "Serializable" := by decide +kernel
  obtain ⟨a, hrun, ha, -, -, hfault⟩ := applied_name_fault happlied hok hname
  exact ⟨a, hrun, ha.trans hstripped, hfault.2 ⟨by decide, by decide +kernel⟩⟩

/-- Not every attribute type whose name is an identifier is applied under an identifier: a reserved
word may be left of it, or nothing but the mark. -/
theorem applied_name_reserved :
    ¬∀ (type : TypeRef) (needs : Dependencies), Identifier.fault? type.name = none →
      ∀ a ∈ ((AttributeStep.addBare type).run ⟨needs, []⟩).state.attributes,
        Identifier.fault? a.name = none := by
  intro h
  have hname : Identifier.fault? "classAttribute" = none := by decide +kernel
  have hleft : Identifier.fault? (Identifier.attributeName "classAttribute") = some .reserved :=
    fault?_of_keyword hname ⟨"class", by decide, rfl⟩
  have hfault := h (.named "classAttribute" .classType) (.new "Shop") hname _ (.head _)
  cases hleft.symm.trans hfault

end Build

end SharpSmith
