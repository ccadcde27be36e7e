import SharpSmith.Build.Declaration
import SharpSmith.Proofs.Calls
import SharpSmith.Proofs.Modifiers

/-!
# Runs of calls on properties

A property is called on when it is added and each time it is reopened. What is built of it depends
only on what these calls have asked for: whether there was a getter among it, which setter and which
visibility came last, and which other modifiers there were. `PropertyStep.histories` lists for each
property the calls that were made on it, and nothing else that happens changes the property.
-/

namespace SharpSmith

namespace Build

namespace HandleStep

/-- The accessor that a call asks for. -/
def accessor? : HandleStep → Option Accessor
  | .accessor a => some a
  | .modifier _ | .doc _ | .attributes _ | .probe => none

/-- The modifier that a call asks for. -/
def modifier? : HandleStep → Option Modifier
  | .modifier m => some m
  | .accessor _ | .doc _ | .attributes _ | .probe => none

/-- The calls that a run makes on an open property. -/
def made (calls : List (Call HandleStep)) (o : OpenProperty) : List HandleStep :=
  (Call.made run calls o).map Prod.fst

end HandleStep

/-- What there is to know of a property: how it was added, with the visibility that it started with,
and the calls on it since then. -/
structure PropertyHistory where
  name : String
  type : TypeRef
  start : Option Modifier
  calls : List HandleStep

namespace PropertyHistory

variable {h : PropertyHistory} {p : PropertyDraft}

/-- The accessors that were asked for. -/
def accessors (h : PropertyHistory) : List Accessor :=
  h.calls.filterMap HandleStep.accessor?

/-- The modifiers that were asked for. -/
def modifiers (h : PropertyHistory) : List Modifier :=
  h.calls.filterMap HandleStep.modifier?

/-- The last setter that was asked for. -/
def setter? (h : PropertyHistory) : Option Accessor :=
  (h.accessors.filter Accessor.isSetter).getLast?

/-- The last visibility that was asked for, or else the one at the start. -/
def visibility? (h : PropertyHistory) : Option Modifier :=
  (h.modifiers.filter Modifier.isVisibility).getLast?.or h.start

/-- A history with more calls at the end. -/
def more (h : PropertyHistory) (acts : List HandleStep) : PropertyHistory :=
  { h with calls := h.calls ++ acts }

/-- A property is built of its history: a getter if one was asked for or there is no setter, the
last setter, the modifiers in their order, and of those for the visibility the last one. -/
structure Gives (h : PropertyHistory) (p : Code.Property) : Prop where
  name : p.name = h.name
  type : p.type = h.type.display
  accessors : p.accessors =
    (if .get ∈ h.accessors ∨ h.setter? = none then [.get] else []) ++ h.setter?.toList
  accessible : p.accessors ≠ []
  ordered : p.modifiers.Pairwise (·.rank < ·.rank)
  modifiers : ∀ m, m ∈ p.modifiers ↔
    m ∈ h.modifiers ∧ m.isVisibility = false ∨ h.visibility? = some m

/-- A property that is being built holds what its history asks for. -/
structure Matches (h : PropertyHistory) (p : PropertyDraft) : Prop where
  name : p.name = h.name
  type : p.type = h.type
  getter : p.getter = true ↔ .get ∈ h.accessors
  setter : p.setter = h.setter?
  modifiers : Modifiers.AskedFor h.start h.modifiers p.modifiers.toList
  start : ∀ m ∈ h.start, m.isVisibility = true

/-- A history with no more calls stays as it is. -/
lemma more_nil : h.more [] = h := by
  rw [more, List.append_nil]

/-- A history gets longer call by call. -/
lemma more_cons {act acts} : (h.more [act]).more acts = h.more (act :: acts) := by
  rw [more, more, more, List.append_assoc, List.singleton_append]

/-- More calls ask for their accessors after those before. -/
lemma accessors_more {acts} :
    (h.more acts).accessors = h.accessors ++ acts.filterMap HandleStep.accessor? :=
  List.filterMap_append

/-- More calls ask for their modifiers after those before. -/
lemma modifiers_more {acts} :
    (h.more acts).modifiers = h.modifiers ++ acts.filterMap HandleStep.modifier? :=
  List.filterMap_append

/-- A setter that is asked for is the last one, and a getter leaves it as it is. -/
lemma setter?_accessor {a : Accessor} :
    (h.more [.accessor a]).setter? = if a.isSetter then some a else h.setter? := by
  have ha : (h.more [.accessor a]).accessors = h.accessors ++ [a] := accessors_more
  rw [setter?, ha, List.filter_append, setter?]
  cases hs : a.isSetter <;> simp [hs]

/-- A property that is added matches its history so far. -/
lemma matches_new (name : String) (type : TypeRef) {visibility : Option Modifier}
    (hv : ∀ m ∈ visibility, m.isVisibility = true) :
    Matches ⟨name, type, visibility, []⟩ (.new name type visibility) where
  name := rfl
  type := rfl
  getter := by simp [PropertyDraft.new, accessors]
  setter := rfl
  modifiers := .ofVisibility visibility
  start := hv

namespace Matches

/-- What matches a history is built of it. -/
lemma build (hp : Matches h p) : Gives h p.build where
  name := hp.name
  type := congrArg TypeRef.display hp.type
  accessors := by
    show p.accessors = _
    rw [PropertyDraft.accessors, hp.setter]
    simp only [Bool.or_eq_true, hp.getter, Option.isNone_iff_eq_none]
  accessible := by
    show p.accessors ≠ []
    rw [PropertyDraft.accessors]
    cases p.setter <;> simp
  ordered := hp.modifiers.ordered
  modifiers := hp.modifiers.mem_iff

/-- A call that asks for no modifier leaves what is said of them as it is. -/
lemma modifiers_of_silent {act : HandleStep} (hp : Matches h p) (hact : act.modifier? = none) :
    Modifiers.AskedFor h.start (h.more [act]).modifiers p.modifiers.toList := by
  have hmodifiers : (h.more [act]).modifiers = h.modifiers := by
    simp [modifiers_more, hact]
  rw [hmodifiers]
  exact hp.modifiers

/-- A call that asks for no accessor leaves what is said of them as it is. -/
lemma accessors_of_silent {act : HandleStep} (hp : Matches h p) (hact : act.accessor? = none) :
    (p.getter = true ↔ .get ∈ (h.more [act]).accessors) ∧ p.setter = (h.more [act]).setter? := by
  have haccessors : (h.more [act]).accessors = h.accessors := by
    simp [accessors_more, hact]
  rw [setter?, haccessors]
  exact ⟨hp.getter, hp.setter⟩

/-- A setter replaces the one before, and a getter is asked for once and for all. -/
lemma access (hp : Matches h p) (a : Accessor) : Matches (h.more [.accessor a]) (p.access a) := by
  have haccessors : (h.more [.accessor a]).accessors = h.accessors ++ [a] := accessors_more
  have hsilent : (HandleStep.accessor a).modifier? = none := rfl
  have hmodifiers := hp.modifiers_of_silent hsilent
  rw [PropertyDraft.access]
  split
  case isTrue ha =>
    refine ⟨hp.name, hp.type, ?_, ?_, hmodifiers, hp.start⟩
    · have hget : Accessor.get ≠ a := by
        rintro rfl
        cases ha
      rw [haccessors]
      simpa [hget] using hp.getter
    · rw [setter?_accessor, if_pos ha]
  case isFalse ha =>
    refine ⟨hp.name, hp.type, ?_, ?_, hmodifiers, hp.start⟩
    · have hget : a = .get := by simpa [Accessor.isSetter] using ha
      rw [haccessors, hget]
      simp
    · rw [setter?_accessor, if_neg ha]
      exact hp.setter

/-- A visibility replaces the one before, and other modifiers are put to those that are there. -/
lemma modify (hp : Matches h p) (m : Modifier) :
    Matches (h.more [.modifier m]) { p with modifiers := p.modifiers.insert m } := by
  have hmodifiers : (h.more [.modifier m]).modifiers = h.modifiers ++ [m] := modifiers_more
  have hsilent : (HandleStep.modifier m).accessor? = none := rfl
  obtain ⟨hgetter, hsetter⟩ := hp.accessors_of_silent hsilent
  refine ⟨hp.name, hp.type, hgetter, hsetter, ?_, hp.start⟩
  rw [hmodifiers]
  exact hp.modifiers.insert hp.start m

/-- Every call on an open property keeps it matching its history, also a call that fails. -/
lemma step {needs : Dependencies} (hp : Matches h p) (act : HandleStep) :
    Matches (h.more [act]) (act.run ⟨needs, p⟩).state.property := by
  have silent : act.accessor? = none → act.modifier? = none → ∀ doc attributes,
      Matches (h.more [act]) { p with doc := doc, attributes := attributes } := by
    intro haccessor hmodifier doc attributes
    obtain ⟨hgetter, hsetter⟩ := hp.accessors_of_silent haccessor
    exact ⟨hp.name, hp.type, hgetter, hsetter, hp.modifiers_of_silent hmodifier, hp.start⟩
  cases act with
  | accessor a => exact hp.access a
  | modifier m => exact hp.modify m
  | doc text => exact silent rfl rfl (some text) p.attributes
  | probe => exact silent rfl rfl p.doc p.attributes
  | attributes calls =>
    apply Run.commit_state (P := fun o : OpenProperty => Matches _ o.property)
    · exact silent rfl rfl p.doc p.attributes
    · exact silent rfl rfl p.doc _

/-- A run of calls on an open property makes its history longer by the calls that it makes. -/
lemma runAll {calls : List (Call HandleStep)} {o : OpenProperty} (hp : Matches h o.property) :
    Matches (h.more (HandleStep.made calls o))
      (Call.runAll HandleStep.run calls o).state.property := by
  induction calls generalizing h o with
  | nil =>
    rw [HandleStep.made, Call.made, List.map_nil, more_nil]
    exact hp
  | cons c calls ih =>
    have hstep : Matches (h.more [c.act]) (c.act.run o).state.property := hp.step c.act
    rw [HandleStep.made, Call.made, List.map_cons, Call.runAll_cons_state, ← more_cons]
    split
    case isTrue => exact ih hstep
    -- the failure ends the run, so that the history ends with this call
    case isFalse =>
      rw [List.map_nil, more_nil]
      exact hstep

/-- Calls on an open property that all succeed make its history longer by them. -/
lemma runs {acts : List HandleStep} {o o' : OpenProperty} (hp : Matches h o.property)
    (hruns : Runs HandleStep.run acts o o') : Matches (h.more acts) o'.property := by
  induction hruns generalizing h with
  | nil =>
    rw [more_nil]
    exact hp
  | @cons act acts o o' _ _ ih =>
    rw [← more_cons]
    exact ih (hp.step act)

end Matches

end PropertyHistory

/-- What stands side by side with a list that has a last entry has one beside it. -/
lemma exists_of_forall₂_snoc {α β : Type} {R : α → β → Prop} {xs : List α} {ys : List β} {y : β}
    (h : List.Forall₂ R xs (ys ++ [y])) :
    ∃ xs' x, xs = xs' ++ [x] ∧ List.Forall₂ R xs' ys ∧ R x y := by
  induction ys generalizing xs with
  | nil =>
    cases h with
    | cons hx h =>
      cases h
      exact ⟨[], _, rfl, .nil, hx⟩
  | cons z ys ih =>
    cases h with
    | cons hz h =>
      obtain ⟨xs', x, rfl, hxs, hx⟩ := ih h
      exact ⟨_ :: xs', x, rfl, .cons hz hxs, hx⟩

namespace PropertyStep

/-- The histories of the properties after a call, where properties are added with the given
visibility unless they are private: a property that is added is the last one, and the last one is
reopened. -/
def record (visibility : Option Modifier) (act : PropertyStep) (d : PropertiesDraft)
    (hs : List PropertyHistory) : List PropertyHistory :=
  match act with
  | .add name type calls =>
    hs ++ [⟨name, type, visibility,
      HandleStep.made calls ⟨d.dependencies.add type, .new name type visibility⟩⟩]
  | .addPrivate name type calls =>
    hs ++ [⟨name, type, some .privateAccess,
      HandleStep.made calls ⟨d.dependencies.add type, .new name type (some .privateAccess)⟩⟩]
  | .current calls =>
    match hs.getLast?, d.properties.getLast? with
    | some h, some p => hs.dropLast ++ [h.more (HandleStep.made calls ⟨d.dependencies, p⟩)]
    | _, _ => hs
  | .fail _ | .probe => hs

/-- The histories of all properties after a run. -/
def histories (calls : List (Call PropertyStep)) (d : PropertiesDraft) : List PropertyHistory :=
  (Call.made run calls d).foldl (fun hs m => m.1.record d.visibility m.2 hs) []

/-- All properties match their histories, and more are added with the given visibility. -/
structure Recorded (visibility : Option Modifier) (hs : List PropertyHistory)
    (d : PropertiesDraft) : Prop where
  visibility : d.visibility = visibility
  matched : List.Forall₂ PropertyHistory.Matches hs d.properties

namespace Recorded

variable {visibility : Option Modifier} {hs : List PropertyHistory} {d : PropertiesDraft}

/-- A property that is added stands after the others with a history of its own. -/
lemma push (hd : Recorded visibility hs d) (name : String) (type : TypeRef)
    {start : Option Modifier} (hstart : ∀ m ∈ start, m.isVisibility = true)
    (calls : List (Call HandleStep)) :
    Recorded visibility
      (hs ++ [⟨name, type, start,
        HandleStep.made calls ⟨d.dependencies.add type, .new name type start⟩⟩])
      (d.push name type start calls).state := by
  have hnew : PropertyHistory.Matches ⟨name, type, start, []⟩
      (OpenProperty.mk (d.dependencies.add type) (.new name type start)).property :=
    PropertyHistory.matches_new name type hstart
  refine ⟨hd.visibility, ?_⟩
  exact List.rel_append hd.matched (.cons hnew.runAll .nil)

/-- The last property goes on with its history when it is reopened. -/
lemma reopen (hd : Recorded visibility hs d) (calls : List (Call HandleStep)) :
    Recorded visibility (record visibility (.current calls) d hs)
      (run (.current calls) d).state := by
  obtain ⟨needs, start, properties⟩ := d
  obtain ⟨rfl, hmatched⟩ := hd
  rcases List.eq_nil_or_concat properties with rfl | ⟨ps, p, rfl⟩
  · cases hmatched
    exact ⟨rfl, .nil⟩
  · rw [List.concat_eq_append] at hmatched ⊢
    obtain ⟨hs, h, rfl, hothers, hlast⟩ := exists_of_forall₂_snoc hmatched
    simp only [record, run, List.getLast?_concat, List.dropLast_concat]
    refine ⟨rfl, ?_⟩
    exact List.rel_append hothers (.cons (hlast.runAll (o := ⟨needs, p⟩)) .nil)

/-- Every call keeps the properties matching their histories, also a call that fails. -/
lemma step (hvisibility : ∀ m ∈ visibility, m.isVisibility = true) (hd : Recorded visibility hs d)
    (act : PropertyStep) : Recorded visibility (act.record visibility d hs) (act.run d).state := by
  cases act with
  | add name type calls =>
    have hpush := hd.push name type hvisibility calls
    rw [run, hd.visibility]
    exact hpush
  | addPrivate name type calls =>
    apply hd.push name type _ calls
    rintro _ ⟨⟩
    rfl
  | current calls => exact hd.reopen calls
  | fail | probe => exact hd

/-- Any run of calls keeps the properties matching their histories. -/
lemma runAll (hvisibility : ∀ m ∈ visibility, m.isVisibility = true)
    (hd : Recorded visibility hs d) (calls : List (Call PropertyStep)) :
    Recorded visibility
      ((Call.made PropertyStep.run calls d).foldl (fun hs m => m.1.record visibility m.2 hs) hs)
      (Call.runAll PropertyStep.run calls d).state := by
  induction calls generalizing hs d with
  | nil => exact hd
  | cons c calls ih =>
    have hstep := hd.step hvisibility c.act
    rw [Call.made, List.foldl_cons, Call.runAll_cons_state]
    split
    case isTrue => exact ih hstep
    case isFalse => exact hstep

end Recorded

/-- A call leaves all properties as they are but the one that it reopens, which is the last. -/
lemma others_kept {act : PropertyStep} {d : PropertiesDraft} {k : Nat} {p : PropertyDraft}
    (hp : d.properties[k]? = some p)
    (hk : ∀ calls, act = .current calls → k + 1 < d.properties.length) :
    (act.run d).state.properties[k]? = some p := by
  have hlt : k < d.properties.length := (List.getElem?_eq_some_iff.1 hp).1
  cases act with
  | add | addPrivate => exact (List.getElem?_append_left hlt).trans hp
  | current calls =>
    rw [run]
    cases d.properties.getLast? with
    | none => exact hp
    | some last =>
      have hlast : k < d.properties.dropLast.length := by
        rw [List.length_dropLast]
        exact Nat.lt_sub_of_add_lt (hk calls rfl)
      apply (List.getElem?_append_left hlast).trans
      rw [List.getElem?_dropLast, if_pos (List.length_dropLast ▸ hlast)]
      exact hp
  | fail | probe => exact hp

end PropertyStep

/-- After any calls that add and reopen properties of a declaration, successful and failing, each
property is built of its own history. A getter is there just if one was asked for or no setter was,
the last setter follows it, and the modifiers stand in their order: all that were asked for, but of
those that say who can see the property only the last one, or the one that it was added with. When
the calls succeed these properties are the new members of the declaration; and no call changes a
property that it has not added or reopened. -/
theorem properties_canonical {kind : DeclarationKind} (d : Draft kind)
    (calls : List (Call PropertyStep)) :
    let visibility := if kind = .interfaceDecl then none else some Modifier.publicAccess
    let start : PropertiesDraft := ⟨d.dependencies, visibility, []⟩
    let r := Call.runAll PropertyStep.run calls start
    let declared := (DeclarationStep.properties calls).run d
    List.Forall₂ PropertyHistory.Gives (PropertyStep.histories calls start) r.state.build ∧
    declared.result = r.result ∧
    (r.result = .ok () → declared.state.members = d.members ++ r.state.build.map .property) ∧
    ∀ (act : PropertyStep) (e : PropertiesDraft) (k : Nat) p, e.properties[k]? = some p →
      (∀ calls, act = .current calls → k + 1 < e.properties.length) →
        (act.run e).state.properties[k]? = some p := by
  intro visibility start r declared
  have hvisibility : ∀ m ∈ visibility, m.isVisibility = true := by
    intro m hm
    dsimp only [visibility] at hm
    split at hm
    case isTrue => cases hm
    case isFalse =>
      cases hm
      rfl
  have hnone : PropertyStep.Recorded visibility [] start := ⟨rfl, .nil⟩
  have hall := hnone.runAll hvisibility calls
  have hdeclared : declared = r.commit (fun p => { d with
      dependencies := p.dependencies
      members := d.members ++ p.build.map Code.Member.property }) d := by
    dsimp only [declared, r, start, visibility]
    rw [DeclarationStep.run, Draft.addProperties, Draft.inInterface]
    simp only [decide_eq_true_eq]
  refine ⟨?_, ?_, fun hok => ?_, fun act e k p => PropertyStep.others_kept⟩
  · exact List.forall₂_map_right_iff.2 (hall.matched.imp fun _ _ hp => hp.build)
  · rw [hdeclared, Run.commit_result]
  · have hresult : declared.result = .ok () := by rw [hdeclared, Run.commit_result, hok]
    rw [hdeclared] at hresult ⊢
    rw [(Run.commit_of_ok hresult).1]

/-- A property with a setter that can be seen from the assembly, and a private one that is reopened
by a call which fails after it has asked for a setter. -/
def nameAndAge : List (Call PropertyStep) :=
  [.plain (.add "Name" (.ofBuiltIn .string)
      [.plain (.accessor .init), .plain (.modifier .staticMember), .plain (.accessor .set),
        .plain (.modifier .internalAccess), .plain (.accessor .get)]),
    .plain (.addPrivate "Age" (.ofBuiltIn .int) []),
    ⟨.current [.plain (.accessor .set), .plain (.attributes [.plain .fail]),
      .plain (.accessor .init)], true, none⟩]

/-- The last setter and the last visibility count, and what was asked for before a failure. -/
theorem properties_canonical_person :
    ∃ name age : Code.Property,
      ((DeclarationStep.properties nameAndAge).run
        (.new .classDecl "Person" "Example")).state.members = [.property name, .property age] ∧
      name.accessors = [.get, .set] ∧ .internalAccess ∈ name.modifiers ∧
      .publicAccess ∉ name.modifiers ∧ age.accessors = [.set] ∧ .privateAccess ∈ age.modifiers := by
  obtain ⟨hgives, -, hmembers, -⟩ :=
    properties_canonical (.new .classDecl "Person" "Example") nameAndAge
  rw [hmembers (by decide)]
  generalize PropertiesDraft.build _ = built at hgives ⊢
  have hhistories : PropertyStep.histories nameAndAge ⟨.new "Example", some .publicAccess, []⟩ =
      [⟨"Name", .ofBuiltIn .string, some .publicAccess,
          [.accessor .init, .modifier .staticMember, .accessor .set, .modifier .internalAccess,
            .accessor .get]⟩,
        ⟨"Age", .ofBuiltIn .int, some .privateAccess,
          [.accessor .set, .attributes [.plain .fail]]⟩] := rfl
  cases hhistories ▸ hgives with
  | @cons _ name _ _ hname hrest =>
    cases hrest with
    | cons hage hnil =>
      cases hnil
      have hpublic : .publicAccess ∉ name.modifiers := by
        rw [hname.modifiers]
        decide
      exact ⟨_, _, rfl, hname.accessors, (hname.modifiers _).2 (.inr rfl), hpublic, hage.accessors,
        (hage.modifiers _).2 (.inr rfl)⟩

end Build

end SharpSmith
