import Mathlib.Data.List.Nodup
import SharpSmith.Proofs.Atomicity

/-!
# Runs of calls on a class

Whatever calls are made on a class, successful and failing, its constructors differ in the types of
their parameters, its base class is no interface and is set once, and its bases are what the calls
that succeeded have asked for. The signatures that a new constructor is compared with are recorded
beside the members; they stay those of the constructors that are built.
-/

namespace SharpSmith

/-- The texts of the types of the parameters of a constructor. -/
def Code.Constructor.signature (k : Code.Constructor) : List String :=
  k.parameters.map Code.Parameter.type

namespace Build

variable {kind : DeclarationKind}

/-- A constructor is compared by what is built of it. -/
lemma ConstructorDraft.signature_build (c : ConstructorDraft) :
    c.build.signature = c.signature := by
  simp [Code.Constructor.signature, build, signature, ParameterDraft.signature,
    ParameterDraft.build]

/-- What every call keeps of a declaration: the signatures on record are those of its constructors,
each once, and interfaces are told from base classes. -/
structure Draft.Coherent (d : Draft kind) : Prop where
  signatures : d.signatures = d.build.constructors.map Code.Constructor.signature
  distinct : d.signatures.Nodup
  base : ∀ t ∈ d.base, t.isInterface = false
  interfaces : ∀ t ∈ d.interfaces, t.isInterface = true

namespace Draft.Coherent

/-- A new declaration is coherent. -/
lemma new {name space : String} : (Draft.new kind name space).Coherent :=
  ⟨rfl, .nil, nofun, nofun⟩

variable {d : Draft kind}

/-- A declaration stays coherent when an interface is added or refused. -/
lemma addInterface (hd : d.Coherent) (type : TypeRef) : (d.addInterface type).state.Coherent := by
  obtain ⟨e, hf⟩ | ⟨ht, hf⟩ := d.addInterface_cases type
  · rw [hf]
    exact hd
  · rw [hf]
    refine ⟨hd.signatures, hd.distinct, hd.base, ?_⟩
    exact List.forall_mem_append.2 ⟨hd.interfaces, by simpa using ht⟩

/-- A declaration stays coherent when a base class is set or refused. -/
lemma setBase (hd : d.Coherent) (type : TypeRef) : (d.setBase type).state.Coherent := by
  obtain ⟨e, hf⟩ | ⟨ht, -, hf⟩ := d.setBase_cases type
  · rw [hf]
    exact hd
  · rw [hf]
    exact ⟨hd.signatures, hd.distinct, by simpa [Run.done] using ht, hd.interfaces⟩

/-- Members that are no constructors leave the signatures as they are. -/
lemma addMembers (hd : d.Coherent) {needs : Dependencies} {ms : List Code.Member}
    (hms : ms.filterMap Code.Member.constructor? = []) :
    ({ d with dependencies := needs, members := d.members ++ ms } : Draft kind).Coherent := by
  refine ⟨?_, hd.distinct, hd.base, hd.interfaces⟩
  show d.signatures = ((d.members ++ ms).filterMap Code.Member.constructor?).map _
  rw [List.filterMap_append, hms, List.append_nil]
  exact hd.signatures

/-- A declaration stays coherent when a constructor is added or refused. -/
lemma addConstructor (hd : d.Coherent) (calls : List (Call ConstructorStep)) :
    (d.addConstructor calls).state.Coherent := by
  unfold Draft.addConstructor
  dsimp only
  split
  case h_1 => exact hd
  case h_2 =>
    generalize (Call.runAll ConstructorStep.run calls (.new d.dependencies d.name)).state = c
    split
    case isTrue => exact hd
    case isFalse hnew =>
      have hnew : c.signature ∉ d.signatures := by simpa using hnew
      refine ⟨?_, ?_, hd.base, hd.interfaces⟩
      · show d.signatures ++ [c.signature] =
          ((d.members ++ [Code.Member.constructor c.build]).filterMap _).map _
        rw [List.filterMap_append, List.map_append, ← c.signature_build]
        exact congrArg (· ++ [c.build.signature]) hd.signatures
      · exact hd.distinct.append (List.nodup_singleton _) (by simpa using hnew)

/-- Every call keeps a declaration coherent, also when it fails. -/
lemma keeps (act : DeclarationStep kind) : Keeps Draft.Coherent DeclarationStep.run act := by
  intro d hd
  cases act with
  | extend type =>
    rw [DeclarationStep.run]
    split
    case isTrue => exact hd.addInterface type
    case isFalse => exact hd.setBase type
  | implement type allowed => exact hd.addInterface type
  | properties calls =>
    apply Run.commit_state hd
    exact hd.addMembers (List.filterMap_eq_nil_iff.2 (by simp [Code.Member.constructor?]))
  | method name calls =>
    apply Run.commit_state hd
    exact hd.addMembers rfl
  | constructor calls => exact hd.addConstructor calls
  | defaultConstructor => exact hd.addConstructor []
  | attributes calls =>
    apply Run.commit_state hd
    exact ⟨hd.signatures, hd.distinct, hd.base, hd.interfaces⟩
  | doc | modifier | parameter | fail =>
    exact ⟨hd.signatures, hd.distinct, hd.base, hd.interfaces⟩

end Draft.Coherent

namespace DeclarationStep

end DeclarationStep

end Build

end SharpSmith
