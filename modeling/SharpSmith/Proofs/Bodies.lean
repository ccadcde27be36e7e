import SharpSmith.Build.Method
import SharpSmith.Proofs.Calls
import SharpSmith.Proofs.Modifiers

/-!
# Bodies that are asked for

A call for a body only ever puts statements after those that are there, and a method that was asked
for a body has one from then on, however the call ends. So a call that adds no statement can change
what is built of the method: it does when nothing had given the method a body before.
-/

namespace SharpSmith

namespace Build

/-- The calls on a body leave the statements that they find and put others after them. -/
lemma keeps_prefix (body : List Statement) (act : BodyStep) :
    Keeps (body <+: ·) BodyStep.run act := by
  have line : ∀ text, Keeps (body <+: ·) BodyStep.addLine text := by
    intro text b hb
    unfold BodyStep.addLine
    split
    case h_1 s _ => exact hb.trans (b.prefix_append [s])
    case h_2 => exact hb
  intro b hb
  cases act with
  | line text => exact line text b hb
  | lines texts => exact Keeps.runAll (fun c _ => line c.act) hb
  | fail => exact hb
  | probe => exact hb

/-- The calls that ask for a body. -/
inductive MethodStep.AsksForBody : MethodStep → Prop where
  | body {lines} : AsksForBody (.body lines)
  | bodyWith {calls} : AsksForBody (.bodyWith calls)

variable {act : MethodStep} {m : MethodDraft}

/-- A method that is asked for a body has one, with the statements that it had and those that the
call has added up to its failure, and nothing else of it changes. -/
lemma MethodStep.AsksForBody.run_state (h : act.AsksForBody) :
    ∃ added, (act.run m).state = { m with body := some (m.body.getD [] ++ added) } := by
  cases h with
  | @body lines =>
    obtain ⟨added, hadded⟩ := keeps_prefix (m.body.getD []) (.lines lines) _ List.prefix_rfl
    exact ⟨added, by rw [hadded]; rfl⟩
  | @bodyWith calls =>
    obtain ⟨added, hadded⟩ : m.body.getD [] <+: (Call.runAll BodyStep.run calls _).state :=
      Keeps.runAll (fun c _ => keeps_prefix _ c.act) List.prefix_rfl
    exact ⟨added, by rw [hadded]; rfl⟩

/-- Of a call that adds no statement a method keeps the empty body at most. -/
lemma MethodStep.AsksForBody.run_state_of_nothing (h : act.AsksForBody)
    (hnothing : (act.run m).state.body.getD [] = m.body.getD []) :
    (act.run m).state = { m with body := some (m.body.getD []) } := by
  obtain ⟨added, hstate⟩ := h.run_state (m := m)
  rw [hstate, Option.getD_some, List.append_right_eq_self] at hnothing
  rw [hstate, hnothing, List.append_nil]

/-- A method that was not asked for a body is built with an empty one, if with one at all. -/
lemma MethodDraft.build_body_of_isSome (hnone : m.body = none) (h : m.build.body.isSome = true) :
    m.build.body = some [] := by
  unfold MethodDraft.build at *
  dsimp only at *
  rw [hnone] at *
  dsimp only at *
  split
  case isTrue => rfl
  case isFalse hneeded =>
    rw [if_neg hneeded] at h
    cases h

/-- A method that becomes abstract and was not asked for a body is built without one. -/
lemma MethodDraft.build_body_of_abstract (hnone : m.body = none) :
    (Call.runAll MethodStep.run [.plain (.modifier .abstractMember)] m).state.build.body =
      none := by
  have hstate : (Call.runAll MethodStep.run [.plain (.modifier .abstractMember)] m).state =
      { m with modifiers := m.modifiers.insert .abstractMember } := rfl
  rw [hstate]
  unfold MethodDraft.build
  dsimp only
  have habstract : (m.modifiers.insert .abstractMember).contains .abstractMember = true :=
    List.contains_iff_mem.2 (Modifiers.mem_insert.2 (.inl rfl))
  rw [hnone, habstract, Bool.not_true, Bool.and_false]
  rfl

/-- A call for a body that adds no statement, failing or not, changes nothing of the method that is
built just if that method has a body before. Calls after it find no difference just if a body was
asked for before: a method that becomes abstract later shows it else. -/
theorem empty_body_unseen_iff (hasks : act.AsksForBody)
    (hnothing : (act.run m).state.body.getD [] = m.body.getD []) :
    ((act.run m).state.build = m.build ↔ m.build.body.isSome) ∧
    ((∀ later : List (Call MethodStep),
        (Call.runAll MethodStep.run later (act.run m).state).state.build =
          (Call.runAll MethodStep.run later m).state.build) ↔
      m.body.isSome) := by
  rw [hasks.run_state_of_nothing hnothing]
  cases hbody : m.body with
  | some body =>
    have hsame : { m with body := some body } = m := by rw [← hbody]
    have hbuilt : m.build.body = some body := by
      unfold MethodDraft.build
      rw [hbody]
    rw [Option.getD_some, hsame, hbuilt]
    exact ⟨iff_of_true rfl rfl, iff_of_true (fun _ => rfl) rfl⟩
  | none =>
    rw [Option.getD_none]
    have hbuilt : ({ m with body := some [] } : MethodDraft).build =
        { m.build with body := some [] } := rfl
    constructor
    · rw [hbuilt]
      constructor
      · intro h
        rw [← h]
        rfl
      · intro h
        rw [← MethodDraft.build_body_of_isSome hbody h]
    · refine iff_of_false (fun h => ?_) Bool.false_ne_true
      -- a body that was asked for stays when the method becomes abstract
      have habstract := congrArg Code.Method.body (h [.plain (.modifier .abstractMember)])
      rw [MethodDraft.build_body_of_abstract hbody] at habstract
      cases habstract

/-- A method `Save` without anything yet, of an interface or not. -/
def saving (inInterface : Bool) : MethodDraft :=
  .new (.new "Shop") "Save" inInterface

/-- A call for a body whose first line holds no statement. -/
def misspelt : MethodStep :=
  .body ["x = = 1", "return;"]

/-- The call fails and adds no statement. -/
lemma misspelt_fails (inInterface : Bool) :
    (misspelt.run (saving inInterface)).succeeded = false ∧
      (misspelt.run (saving inInterface)).state.body.getD [] = [] := by
  cases inInterface <;> decide +kernel

/-- A line that holds no statement is not seen on a method of a class, and turns a signature of an
interface into a method with a body. -/
theorem empty_body_unseen_misspelt :
    (misspelt.run (saving false)).state.build = (saving false).build ∧
      (misspelt.run (saving true)).state.build ≠ (saving true).build := by
  obtain ⟨hclass, -⟩ := empty_body_unseen_iff .body (misspelt_fails false).2
  obtain ⟨hinterface, -⟩ := empty_body_unseen_iff .body (misspelt_fails true).2
  exact ⟨hclass.2 rfl, fun h => Bool.false_ne_true (hinterface.1 h)⟩

/-- Not every call for a body that fails without a statement leaves the method as it was. -/
theorem failing_body_seen :
    ¬∀ (act : MethodStep) (m : MethodDraft) (e : Failure), act.AsksForBody →
      (act.run m).result = .error e → (act.run m).state.body.getD [] = m.body.getD [] →
        (act.run m).state.build = m.build := by
  intro h
  have hasks : misspelt.AsksForBody := .body
  obtain ⟨hfails, hnothing⟩ := misspelt_fails true
  obtain ⟨e, he⟩ := Run.not_succeeded_iff.1 hfails
  have hbody := congrArg Code.Method.body (h misspelt (saving true) e hasks he hnothing)
  rw [hasks.run_state_of_nothing hnothing] at hbody
  cases hbody

end Build

end SharpSmith
