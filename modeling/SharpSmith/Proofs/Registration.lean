import SharpSmith.Proofs.Atomicity
import SharpSmith.Proofs.Dependencies

/-!
# What a declaration registers

Calls hand types over to the declaration around them; `registered` lists those that count once it is
settled which calls succeed. The needs of a declaration are the needs of these types and no others:
what a failed call was handed is forgotten, what the calls beside it were handed is not.
-/

namespace SharpSmith.Build

variable {α σ τ : Type} {deps : σ → Dependencies} {step : α → σ → Run σ}
  {what : α → σ → List TypeRef}

/-- What the calls of a run register, each in the state that it finds. -/
def Call.registered (step : α → σ → Run σ) (what : α → σ → List TypeRef) (calls : List (Call α))
    (s : σ) : List TypeRef :=
  (Call.made step calls s).flatMap fun m => what m.1 m.2

/-- A call, successful or not, changes the needs as recording what it registers does. -/
def Tracks (deps : σ → Dependencies) (step : α → σ → Run σ) (what : α → σ → List TypeRef) : Prop :=
  ∀ act s, deps (step act s).state = (deps s).addAll (what act s)

/-- A run of calls changes the needs as recording what they register does. -/
lemma Tracks.runAll (h : Tracks deps step what) (calls : List (Call α)) (s : σ) :
    deps (Call.runAll step calls s).state =
      (deps s).addAll (Call.registered step what calls s) := by
  induction calls generalizing s with
  | nil => rfl
  | cons c cs ih =>
    rw [Call.registered, Call.made, List.flatMap_cons, Dependencies.addAll_append, ← h,
      Call.runAll_cons_state]
    split
    case isTrue => exact ih _
    -- the failure ends the run, so that nothing more is registered
    case isFalse => rfl

/-- A part that is taken over succeeds just if it did before. -/
lemma Run.succeeded_commit {put : τ → σ} {before} {r : Run τ} :
    (r.commit put before).succeeded = r.succeeded := by
  rw [Run.succeeded, Run.succeeded, Run.commit_result]

/-- What counts only when it succeeded registers its types only then. -/
lemma Run.deps_commit {put : τ → σ} {before} {r : Run τ} {ts : List TypeRef}
    (h : deps (put r.state) = (deps before).addAll ts) :
    deps (r.commit put before).state = (deps before).addAll (if r.succeeded then ts else []) := by
  cases hr : r.succeeded with
  | true =>
    have hok : (r.commit put before).result = .ok () := by
      rw [← Run.succeeded_iff, Run.succeeded_commit, hr]
    rw [if_pos rfl, ← h, (Run.commit_of_ok hok).1]
  | false =>
    have hfails : (r.commit put before).succeeded = false := by rw [Run.succeeded_commit, hr]
    obtain ⟨e, he⟩ := Run.not_succeeded_iff.1 hfails
    rw [Run.commit_of_error he]
    rfl

namespace AttributeStep

/-- An attribute that is applied registers its type. -/
def registered (act : AttributeStep) (d : AttributesDraft) : List TypeRef :=
  match act with
  | .add type _ => if (act.run d).succeeded then [type] else []
  | .addBare type => [type]
  | .fail _ | .probe => []

/-- Calls on attributes change the needs by what they register. -/
lemma tracks : Tracks AttributesDraft.dependencies run registered := by
  intro act d
  cases act with
  | add type args =>
    rw [registered]
    cases hargs : Expression.parseAll args with
    | ok read =>
      have hrun : run (.add type args) d = .done (d.push type read) := by rw [run, hargs]
      rw [hrun]
      rfl
    | error e =>
      have hrun : run (.add type args) d = .fail d (.malformed e) := by rw [run, hargs]
      rw [hrun]
      rfl
  | addBare | fail | probe => rfl

/-- Attributes register their types together, or none when collecting them fails. -/
def collected (calls : List (Call AttributeStep)) (needs : Dependencies) : List TypeRef :=
  if (collect calls needs).succeeded then Call.registered run registered calls ⟨needs, []⟩ else []

/-- Attributes that are put on something change its needs by what is collected. -/
lemma deps_collect {calls} {s : σ} {put : AttributesDraft → σ}
    (h : ∀ d, deps (put d) = d.dependencies) :
    deps ((collect calls (deps s)).commit put s).state =
      (deps s).addAll (collected calls (deps s)) := by
  apply Run.deps_commit
  rw [h]
  exact tracks.runAll calls ⟨deps s, []⟩

end AttributeStep

namespace HandleStep

/-- Attributes are all that registers types on an open property. -/
def registered : HandleStep → OpenProperty → List TypeRef
  | .attributes calls, h => AttributeStep.collected calls h.dependencies
  | .accessor _, _ | .modifier _, _ | .doc _, _ | .probe, _ => []

/-- Calls on an open property change the needs by what they register. -/
lemma tracks : Tracks OpenProperty.dependencies run registered := by
  intro act h
  cases act with
  | attributes calls => exact AttributeStep.deps_collect fun _ => rfl
  | accessor | modifier | doc | probe => rfl

end HandleStep

namespace PropertyStep

/-- A property registers its type when it is added, and then whatever the calls on it register: a
failure among them does not take the property back. -/
def registered : PropertyStep → PropertiesDraft → List TypeRef
  | .add name type calls, d =>
    type :: Call.registered HandleStep.run HandleStep.registered calls
      ⟨d.dependencies.add type, .new name type d.visibility⟩
  | .addPrivate name type calls, d =>
    type :: Call.registered HandleStep.run HandleStep.registered calls
      ⟨d.dependencies.add type, .new name type (some .privateAccess)⟩
  | .current calls, d =>
    match d.properties.getLast? with
    | some p => Call.registered HandleStep.run HandleStep.registered calls ⟨d.dependencies, p⟩
    | none => []
  | .fail _, _ | .probe, _ => []

/-- Calls on properties change the needs by what they register. -/
lemma tracks : Tracks PropertiesDraft.dependencies run registered := by
  intro act d
  cases act with
  | add | addPrivate => exact HandleStep.tracks.runAll _ _
  | current calls =>
    simp only [run, registered]
    cases d.properties.getLast? with
    | some p => exact HandleStep.tracks.runAll calls _
    | none => rfl
  | fail | probe => rfl

end PropertyStep

namespace MethodStep

/-- What a call on a method registers. -/
def registered : MethodStep → MethodDraft → List TypeRef
  | .returns type, _ | .parameter _ type, _ => [type]
  | .attributes calls, m => AttributeStep.collected calls m.dependencies
  | .body _, _ | .bodyWith _, _ | .modifier _, _ | .doc _, _ | .fail _, _ | .probe, _ => []

/-- Calls on a method change the needs by what they register. -/
lemma tracks : Tracks MethodDraft.dependencies run registered := by
  intro act m
  cases act with
  | attributes calls => exact AttributeStep.deps_collect fun _ => rfl
  | returns | parameter | body | bodyWith | modifier | doc | fail | probe => rfl

end MethodStep

namespace ConstructorStep

/-- What a call on a constructor registers. -/
def registered : ConstructorStep → ConstructorDraft → List TypeRef
  | .parameter _ type, _ => [type]
  | .attributes calls, c => AttributeStep.collected calls c.dependencies
  | .mapBase, _ | .mapBaseWith _, _ | .body _, _ | .bodyWith _, _ | .modifier _, _ | .doc _, _
  | .fail _, _ | .probe, _ => []

/-- Calls on a constructor change the needs by what they register. -/
lemma tracks : Tracks ConstructorDraft.dependencies run registered := by
  intro act c
  cases act with
  | attributes calls => exact AttributeStep.deps_collect fun _ => rfl
  | mapBaseWith args =>
    simp only [run, registered]
    split <;> rfl
  | parameter | mapBase | body | bodyWith | modifier | doc | fail | probe => rfl

end ConstructorStep

namespace DeclarationStep

variable {kind : DeclarationKind}

/-- The types that a call on a declaration is given, itself or by the calls inside of it. -/
def given : DeclarationStep kind → Draft kind → List TypeRef
  | .extend type, _ | .implement type _, _ | .parameter _ type, _ => [type]
  | .attributes calls, d => AttributeStep.collected calls d.dependencies
  | .properties calls, d =>
    Call.registered PropertyStep.run PropertyStep.registered calls
      ⟨d.dependencies, if d.inInterface then none else some .publicAccess, []⟩
  | .method name calls, d =>
    Call.registered MethodStep.run MethodStep.registered calls
      (.new d.dependencies name d.inInterface)
  | .constructor calls, d =>
    Call.registered ConstructorStep.run ConstructorStep.registered calls
      (.new d.dependencies d.name)
  | .defaultConstructor, _ | .doc _, _ | .modifier _, _ | .fail _, _ => []

/-- A call on a declaration registers the types that it is given when it succeeds. -/
def registered (act : DeclarationStep kind) (d : Draft kind) : List TypeRef :=
  if (act.run d).succeeded then act.given d else []

/-- What the calls on a declaration register, in order. -/
def registeredAll (calls : List (Call (DeclarationStep kind))) (d : Draft kind) : List TypeRef :=
  Call.registered run registered calls d

/-- A call that succeeds records what it is given. -/
lemma deps_of_ok {act : DeclarationStep kind} {d : Draft kind} (h : (act.run d).result = .ok ()) :
    (act.run d).state.dependencies = d.dependencies.addAll (act.given d) := by
  have interface : ∀ type, (d.addInterface type).result = .ok () →
      (d.addInterface type).state.dependencies = d.dependencies.addAll [type] := by
    intro type hok
    obtain ⟨e, hf⟩ | ⟨-, hf⟩ := d.addInterface_cases type
    · rw [hf] at hok
      cases hok
    · rw [hf]
      rfl
  have constructor : ∀ calls, (d.addConstructor calls).result = .ok () →
      (d.addConstructor calls).state.dependencies =
        d.dependencies.addAll (Call.registered ConstructorStep.run ConstructorStep.registered calls
          (.new d.dependencies d.name)) := by
    intro calls hok
    obtain ⟨log, e, hf⟩ | ⟨c, -, hc, log, hf⟩ := d.addConstructor_cases calls
    · rw [hf] at hok
      cases hok
    · rw [hf]
      show c.dependencies = _
      rw [hc]
      exact ConstructorStep.tracks.runAll calls _
  cases act with
  | extend type =>
    rw [run] at *
    split at h
    case isTrue hi =>
      rw [if_pos hi]
      exact interface type h
    case isFalse hi =>
      rw [if_neg hi]
      obtain ⟨e, hf⟩ | ⟨-, -, hf⟩ := d.setBase_cases type
      · rw [hf] at h
        cases h
      · rw [hf]
        rfl
  | implement type allowed => exact interface type h
  | attributes calls => exact AttributeStep.deps_collect fun _ => rfl
  | properties calls =>
    obtain ⟨hstate, -⟩ := Run.commit_of_ok h
    exact (congrArg Draft.dependencies hstate).trans (PropertyStep.tracks.runAll calls _)
  | method name calls =>
    obtain ⟨hstate, -⟩ := Run.commit_of_ok h
    exact (congrArg Draft.dependencies hstate).trans (MethodStep.tracks.runAll calls _)
  | constructor calls => exact constructor calls h
  | defaultConstructor => exact constructor [] h
  | parameter | doc | modifier => rfl
  | fail => cases h

/-- A call that fails leaves the needs as they were, since it leaves everything so. -/
lemma tracks : Tracks (Draft.dependencies : Draft kind → Dependencies) run registered := by
  intro act d
  rw [registered]
  cases hs : (act.run d).succeeded with
  | true => exact deps_of_ok (Run.succeeded_iff.1 hs)
  | false =>
    obtain ⟨e, he⟩ := Run.not_succeeded_iff.1 hs
    rw [atomic_declaration act d e he]
    rfl

end DeclarationStep

/-- After any calls on a new declaration, successful and failing, its needs are those of the
registered types: no namespace twice, never its own, each other one exactly when a node of a
registered type that is not built in stands there, and an assembly exactly when such a node from
outside is backed by it. -/
theorem needs_exact (kind : DeclarationKind) (name space : String)
    (calls : List (Call (DeclarationStep kind))) :
    let needs := (DeclarationStep.runAll calls (.new kind name space)).state.dependencies
    let types := DeclarationStep.registeredAll calls (.new kind name space)
    needs.namespaces.Nodup ∧ space ∉ needs.namespaces ∧
      (∀ other, other ∈ needs.namespaces ↔ other ≠ space ∧ ∃ t ∈ types, t.Imports other) ∧
      ∀ artifact, artifact ∈ needs.artifacts ↔ ∃ t ∈ types, t.RefersTo space artifact := by
  intro needs types
  have hneeds : needs = (Dependencies.new space).addAll types :=
    DeclarationStep.tracks.runAll calls _
  obtain ⟨-, hnodup, hmem⟩ := (Dependencies.new space).addAll_spec types
  rw [hneeds]
  refine ⟨hnodup List.nodup_nil, ?_, ?_, ?_⟩
  · intro hown
    obtain hown | ⟨hne, -⟩ := (hmem space).1 hown
    · cases hown
    · exact hne rfl
  · intro other
    rw [hmem]
    constructor
    · rintro (h | h)
      · cases h
      · exact h
    · exact .inr
  · intro artifact
    rw [Dependencies.mem_addAll_artifacts]
    constructor
    · rintro (h | h)
      · cases h
      · exact h
    · exact .inr

/-- A method that fails is forgotten with its return type; a property stays without the attribute
that was refused. -/
example :
    (DeclarationStep.runAll
      [⟨.method "Pay" [.plain (.returns ⟨"Bank", some "Shop.Banks", .classType, none, []⟩),
          .plain .fail], true, none⟩,
        .plain (.properties
          [⟨.add "Due" ⟨"Date", some "Shop.Dates", .structType, none, []⟩
            [.plain (.attributes [.plain (.addBare ⟨"Key", some "Shop.Keys", .classType, none, []⟩),
              .plain .fail])], true, none⟩])]
      (.new .classDecl "Invoice" "Shop")).state.dependencies.namespaces = ["Shop.Dates"] := by
  decide

end SharpSmith.Build
