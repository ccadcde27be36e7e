import SharpSmith.Build.Project
import SharpSmith.Proofs.Calls

/-!
# Failing calls

A call on a declaration either does all it should or fails and leaves the declaration as it was,
whatever the calls inside of it have done; so does a call for attributes on a method, a constructor
or a property, and a call that adds a declaration to a project. A run of calls on a declaration is
therefore the run of those that succeed.
-/

namespace SharpSmith.Build

/-- Attributes on a method are all put there or none of them. -/
lemma atomic_method_attributes (calls : List (Call AttributeStep)) :
    Atomic MethodStep.run (.attributes calls) :=
  fun _ _ h => Run.commit_of_error h

/-- Attributes on a constructor are all put there or none of them. -/
lemma atomic_constructor_attributes (calls : List (Call AttributeStep)) :
    Atomic ConstructorStep.run (.attributes calls) :=
  fun _ _ h => Run.commit_of_error h

/-- Attributes on a property are all put there or none of them. -/
lemma atomic_handle_attributes (calls : List (Call AttributeStep)) :
    Atomic HandleStep.run (.attributes calls) :=
  fun _ _ h => Run.commit_of_error h

variable {kind : DeclarationKind}

/-- The base class is refused, or it is the first one and is set. -/
lemma Draft.setBase_cases (d : Draft kind) (type : TypeRef) :
    (∃ e, d.setBase type = .fail d e) ∨
      type.isInterface = false ∧ d.base = none ∧
        d.setBase type =
          .done { d with dependencies := d.dependencies.add type, base := some type } := by
  unfold Draft.setBase
  cases ht : type.isInterface with
  | true => exact .inl ⟨_, rfl⟩
  | false =>
    cases hb : d.base with
    | some existing => exact .inl ⟨_, rfl⟩
    | none => exact .inr ⟨rfl, rfl, rfl⟩

/-- What is no interface is refused, and an interface is added. -/
lemma Draft.addInterface_cases (d : Draft kind) (type : TypeRef) :
    (∃ e, d.addInterface type = .fail d e) ∨
      type.isInterface = true ∧
        d.addInterface type =
          .done { d with
            dependencies := d.dependencies.add type
            interfaces := d.interfaces ++ [type] } := by
  unfold Draft.addInterface
  cases type.isInterface with
  | false => exact .inl ⟨_, rfl⟩
  | true => exact .inr ⟨rfl, rfl⟩

/-- A constructor fails or takes what another one takes, or it is added. -/
lemma Draft.addConstructor_cases (d : Draft kind) (calls : List (Call ConstructorStep)) :
    (∃ log e, d.addConstructor calls = ⟨d, log, .error e⟩) ∨
      ∃ c, (Call.runAll ConstructorStep.run calls (.new d.dependencies d.name)).result = .ok () ∧
        c = (Call.runAll ConstructorStep.run calls (.new d.dependencies d.name)).state ∧
        ∃ log, d.addConstructor calls =
          ⟨{ d with
              dependencies := c.dependencies
              members := d.members ++ [.constructor c.build]
              signatures := d.signatures ++ [c.signature] }, log, .ok ()⟩ := by
  unfold Draft.addConstructor
  dsimp only
  split
  case h_1 e he => exact .inl ⟨_, e, rfl⟩
  case h_2 hok =>
    split
    case isTrue => exact .inl ⟨_, _, rfl⟩
    case isFalse => exact .inr ⟨_, hok, rfl, _, rfl⟩

/-- A call on a declaration that fails leaves the declaration as it was. -/
lemma atomic_declaration (act : DeclarationStep kind) : Atomic DeclarationStep.run act := by
  have interface : ∀ (d : Draft kind) type e, (d.addInterface type).result = .error e →
      (d.addInterface type).state = d := by
    intro d type e h
    rcases d.addInterface_cases type with ⟨_, hf⟩ | ⟨-, hf⟩
    · rw [hf]
      rfl
    · rw [hf] at h
      cases h
  have constructor : ∀ (d : Draft kind) calls e, (d.addConstructor calls).result = .error e →
      (d.addConstructor calls).state = d := by
    intro d calls e h
    rcases d.addConstructor_cases calls with ⟨_, _, hf⟩ | ⟨c, -, -, _, hf⟩
    · rw [hf]
    · rw [hf] at h
      cases h
  intro d e h
  cases act with
  | extend type =>
    rw [DeclarationStep.run] at *
    split
    case isTrue hi =>
      rw [if_pos hi] at h
      exact interface d type e h
    case isFalse hi =>
      rw [if_neg hi] at h
      rcases d.setBase_cases type with ⟨_, hf⟩ | ⟨-, -, hf⟩
      · rw [hf]
        rfl
      · rw [hf] at h
        cases h
  | implement type allowed => exact interface d type e h
  | attributes calls => exact Run.commit_of_error h
  | properties calls => exact Run.commit_of_error h
  | method name calls => exact Run.commit_of_error h
  | constructor calls => exact constructor d calls e h
  | defaultConstructor => exact constructor d [] e h
  | doc | modifier | parameter => cases h
  | fail => rfl

/-- A call on a declaration that fails leaves everything as it was: what is built of the
declaration, its needs, its bases and the signatures of its constructors. So a run of calls, some of
which fail, is the run of those that succeed. The same holds of attributes on a member, with the
needs around it, and of a declaration that is added to a project. -/
theorem failing_calls_atomic {kind : DeclarationKind} :
    (∀ act : DeclarationStep kind, Atomic DeclarationStep.run act) ∧
    (∀ (calls : List (Call (DeclarationStep kind))) (d : Draft kind),
      Runs DeclarationStep.run (Call.succeeding DeclarationStep.run calls d) d
        (DeclarationStep.runAll calls d).state) ∧
    (∀ (space name : String) (calls : List (Call (DeclarationStep kind))),
      Atomic (Project.addBuiltIn space name) calls ∧ Atomic (Project.addBuilt name) calls) ∧
    (∀ calls : List (Call AttributeStep),
      Atomic MethodStep.run (.attributes calls) ∧
      Atomic ConstructorStep.run (.attributes calls) ∧
      Atomic HandleStep.run (.attributes calls)) := by
  refine ⟨atomic_declaration, fun calls d => ?_, fun space name calls => ?_, fun calls => ?_⟩
  · exact Atomic.runs_succeeding atomic_declaration calls d
  · exact ⟨fun _ _ h => Run.commit_of_error h, fun _ _ h => Run.commit_of_error h⟩
  · exact ⟨atomic_method_attributes calls, atomic_constructor_attributes calls,
      atomic_handle_attributes calls⟩

/-- A method that records a type and lets a failure pass before a line of its body breaks off. -/
def brokenTotal : DeclarationStep .classDecl :=
  .method "Total"
    [.plain (.returns ((TypeRef.named "Money" .structType).inNamespace "Shop.Amounts")),
      ⟨.attributes [.plain (.addBare (.named "Obsolete" .classType)), .plain .fail], true, none⟩,
      .plain (.body ["var sum = 0;", "return Sum(;"])]

/-- A class that has a base class. -/
def boundInvoice : Draft .classDecl :=
  ((Draft.new .classDecl "Invoice" "Shop").setBase (.named "Document" .classType)).state

/-- The method whose body breaks off leaves the class as it was. -/
theorem failing_calls_atomic_method :
    (brokenTotal.run boundInvoice).succeeded = false ∧
      (brokenTotal.run boundInvoice).state = boundInvoice := by
  have hfails : (brokenTotal.run boundInvoice).succeeded = false := by decide
  obtain ⟨e, he⟩ := Run.not_succeeded_iff.1 hfails
  exact ⟨hfails, failing_calls_atomic.1 brokenTotal boundInvoice e he⟩

end SharpSmith.Build
