import Mathlib.Data.List.Forall2
import Mathlib.Tactic.Common
import SharpSmith.Build.Call

/-!
# Runs of calls

A run of calls is told by its single calls: `made` lists the calls that it makes, each with the
state that the call finds. A property that every call keeps holds after the run; where no call that
fails changes anything, a run leaves behind what its succeeding calls leave behind alone.
-/

namespace SharpSmith.Build

variable {α σ τ : Type} {P : σ → Prop} {step : α → σ → Run σ}

/-- A run succeeds just if it ends without failure. -/
lemma Run.succeeded_iff {r : Run σ} : r.succeeded = true ↔ r.result = .ok () := by
  unfold Run.succeeded
  cases r.result with
  | error e => exact ⟨nofun, nofun⟩
  | ok u => exact ⟨fun _ => rfl, fun _ => rfl⟩

/-- A run does not succeed just if it ends with a failure. -/
lemma Run.not_succeeded_iff {r : Run σ} : r.succeeded = false ↔ ∃ e, r.result = .error e := by
  unfold Run.succeeded
  cases r.result with
  | error e => exact ⟨fun _ => ⟨e, rfl⟩, fun _ => rfl⟩
  | ok u => exact ⟨nofun, nofun⟩

/-- A run that counts only when it succeeded has left what it put there. -/
lemma Run.commit_of_ok {put : τ → σ} {before r} (h : (Run.commit put before r).result = .ok ()) :
    (Run.commit put before r).state = put r.state ∧ r.result = .ok () := by
  unfold Run.commit at *
  split at h
  case h_1 hr => exact ⟨rfl, hr⟩
  case h_2 => cases h

/-- A run that counts only when it succeeded leaves the whole as it was when it failed. -/
lemma Run.commit_of_error {put : τ → σ} {before r e}
    (h : (Run.commit put before r).result = .error e) :
    (Run.commit put before r).state = before := by
  unfold Run.commit at *
  split at h
  case h_1 => cases h
  case h_2 => rfl

/-- Taking a part over does not change how it ended. -/
@[simp] lemma Run.commit_result {put : τ → σ} {before} {r : Run τ} :
    (r.commit put before).result = r.result := by
  unfold Run.commit
  split
  case h_1 hr => exact hr.symm
  case h_2 hr => exact hr.symm

/-- What counts only when it succeeded keeps what holds before and after. -/
lemma Run.commit_state {put : τ → σ} {before} {r : Run τ} (hbefore : P before)
    (hafter : P (put r.state)) : P (r.commit put before).state := by
  unfold Run.commit
  split
  case h_1 => exact hafter
  case h_2 => exact hbefore

/-- A call leaves behind what its step does. -/
lemma Call.run_state {c : Call α} {s} : (c.run step s).state = (step c.act s).state := by
  unfold Call.run
  dsimp only
  split <;> rfl

/-- A call that is run leaves the state of its step, and succeeds when the step does. -/
lemma Call.run_of_ok {c : Call α} {s} (h : (c.run step s).result = .ok ()) :
    c.run step s = step c.act s ∧ (step c.act s).result = .ok () := by
  unfold Call.run at *
  dsimp only at *
  split at h
  case h_1 hr => exact ⟨rfl, hr⟩
  case h_2 => cases h

/-- Whether the calls after a call are run: it succeeds, or its failure is caught. -/
def Call.goesOn (step : α → σ → Run σ) (c : Call α) (s : σ) : Bool :=
  (step c.act s).succeeded || c.caught

/-- The calls that a run makes, each with the state that it finds. -/
def Call.made (step : α → σ → Run σ) : List (Call α) → σ → List (α × σ)
  | [], _ => []
  | c :: cs, s =>
    (c.act, s) :: if c.goesOn step s then Call.made step cs (step c.act s).state else []

/-- The calls of a run that succeed, in order. -/
def Call.succeeding (step : α → σ → Run σ) (cs : List (Call α)) (s : σ) : List α :=
  ((Call.made step cs s).filter fun m => (step m.1 m.2).succeeded).map Prod.fst

/-- After a call that does not stop a run, the others run on the state that it leaves. -/
lemma Call.runAll_cons_of_goesOn {c : Call α} {s} (h : c.goesOn step s = true) :
    ∃ log, ∀ cs, Call.runAll step (c :: cs) s =
      (Call.runAll step cs (step c.act s).state).after log := by
  simp only [Call.runAll, Call.run]
  unfold Call.goesOn at h
  cases hr : (step c.act s).result with
  | ok u =>
    rw [hr]
    exact ⟨_, fun _ => rfl⟩
  | error e =>
    rw [Run.not_succeeded_iff.2 ⟨e, hr⟩, Bool.false_or] at h
    rw [h]
    exact ⟨_, fun _ => rfl⟩

/-- A call that stops a run has failed, and its failure has got the place of the call if it had
none. -/
lemma Call.runAll_cons_of_stops {c : Call α} {s} (h : c.goesOn step s = false) :
    ∃ e, (step c.act s).result = .error e ∧ ∀ cs, Call.runAll step (c :: cs) s =
      { step c.act s with result := .error ⟨e.error, e.place <|> c.place⟩ } := by
  obtain ⟨hfails, hcaught⟩ := Bool.or_eq_false_iff.1 h
  obtain ⟨e, he⟩ := Run.not_succeeded_iff.1 hfails
  refine ⟨e, he, fun cs => ?_⟩
  simp only [Call.runAll, Call.run, he, hcaught]
  rfl

/-- What a run leaves is what its first call leaves, or what the others make of it. -/
lemma Call.runAll_cons_state {c : Call α} {cs s} :
    (Call.runAll step (c :: cs) s).state =
      if c.goesOn step s then (Call.runAll step cs (step c.act s).state).state
      else (step c.act s).state := by
  cases h : c.goesOn step s with
  | true =>
    obtain ⟨log, hrun⟩ := Call.runAll_cons_of_goesOn h
    rw [hrun]
    rfl
  | false =>
    obtain ⟨e, -, hrun⟩ := Call.runAll_cons_of_stops h
    rw [hrun]
    rfl

/-- A call that keeps a property of the state, also when it fails. -/
def Keeps (P : σ → Prop) (step : α → σ → Run σ) (act : α) : Prop :=
  ∀ s, P s → P (step act s).state

/-- Calls that keep a property one by one keep it together. -/
lemma Keeps.runAll {cs : List (Call α)} (h : ∀ c ∈ cs, Keeps P step c.act) {s} (hs : P s) :
    P (Call.runAll step cs s).state := by
  induction cs generalizing s with
  | nil => exact hs
  | cons c cs ih =>
    rw [List.forall_mem_cons] at h
    have hc : P (step c.act s).state := h.1 s hs
    rw [Call.runAll_cons_state]
    -- a failure that is caught leaves what it has done to the calls after it
    split
    case isTrue => exact ih h.2 hc
    case isFalse => exact hc

/-- Calls that all succeed, one after the other, lead from a state to another. -/
inductive Runs (step : α → σ → Run σ) : List α → σ → σ → Prop where
  | nil {s} : Runs step [] s s
  | cons {act acts s s'} :
    (step act s).result = .ok () →
    Runs step acts (step act s).state s' →
    Runs step (act :: acts) s s'

/-- What succeeds one after the other can be cut anywhere. -/
lemma Runs.cut {acts acts' : List α} {s s'} (h : Runs step (acts ++ acts') s s') :
    ∃ t, Runs step acts s t ∧ Runs step acts' t s' := by
  induction acts generalizing s with
  | nil => exact ⟨s, .nil, h⟩
  | cons act acts ih =>
    cases h with
    | cons hok h =>
      obtain ⟨t, ht, h'⟩ := ih h
      exact ⟨t, .cons hok ht, h'⟩

/-- One call that succeeds leads to where it ends. -/
lemma Runs.single {act : α} {s s'} (h : Runs step [act] s s') :
    (step act s).result = .ok () ∧ s' = (step act s).state := by
  cases h with
  | cons hok h =>
    cases h
    exact ⟨hok, rfl⟩

/-- The call that something asks for, if it is there. -/
lemma Runs.option {β : Type} {x : Option β} {f : β → α} {G : Option β → σ → Prop} {s s'}
    (h : Runs step (x.toList.map f) s s') (absent : G none s)
    (present : ∀ b, (step (f b) s).result = .ok () → G (some b) (step (f b) s).state) : G x s' := by
  cases x with
  | none =>
    cases h
    exact absent
  | some b =>
    obtain ⟨hok, rfl⟩ := h.single
    exact present b hok

/-- Calls asked for by the elements of a list, each of which adds an item: `R` says which item an
element gives, and `G` how a state with more items comes from another. -/
lemma Runs.collect {β γ : Type} {Q : β → α → Prop} {R : β → γ → Prop} {G : List γ → σ → σ → Prop}
    {xs acts s s'} (hasked : List.Forall₂ Q xs acts) (h : Runs step acts s s')
    (refl : ∀ s, G [] s s)
    (grow : ∀ x act s, Q x act → (step act s).result = .ok () →
      ∃ y, R x y ∧ ∀ ys s', G ys (step act s).state s' → G (y :: ys) s s') :
    ∃ ys, List.Forall₂ R xs ys ∧ G ys s s' := by
  induction hasked generalizing s with
  | nil =>
    cases h
    exact ⟨[], .nil, refl _⟩
  | @cons x act xs acts hx _ ih =>
    cases h with
    | cons hok h =>
      obtain ⟨y, hy, hgrow⟩ := grow x act s hx hok
      obtain ⟨ys, hys, hG⟩ := ih h
      exact ⟨y :: ys, .cons hy hys, hgrow ys s' hG⟩

/-- Calls each of which puts one item at the end of a list that the state holds. -/
lemma Runs.append {β γ : Type} {Q : β → α → Prop} {R : β → γ → Prop} (get : σ → List γ)
    {xs acts s s'} (hasked : List.Forall₂ Q xs acts) (h : Runs step acts s s')
    (one : ∀ x act s, Q x act → (step act s).result = .ok () →
      ∃ y, R x y ∧ get (step act s).state = get s ++ [y]) :
    ∃ ys, List.Forall₂ R xs ys ∧ get s' = get s ++ ys := by
  apply Runs.collect hasked h (fun _ => (List.append_nil _).symm)
  intro x act s hx hok
  obtain ⟨y, hy, hget⟩ := one x act s hx hok
  refine ⟨y, hy, fun ys s' hs' => ?_⟩
  rw [hs', hget, List.append_assoc, List.singleton_append]

/-- A run that succeeds and catches no failure is a run of calls that all succeed. -/
lemma Call.runs_of_runAll {cs : List (Call α)} {s} (hstrict : ∀ c ∈ cs, c.caught = false)
    (hok : (Call.runAll step cs s).result = .ok ()) :
    Runs step (cs.map Call.act) s (Call.runAll step cs s).state := by
  induction cs generalizing s with
  | nil => exact .nil
  | cons c cs ih =>
    rw [List.forall_mem_cons] at hstrict
    rw [Call.runAll] at hok ⊢
    split at hok
    case h_1 hr =>
      obtain ⟨hrun, hstep⟩ := Call.run_of_ok hr
      rw [hrun] at hok ⊢
      exact .cons hstep (ih hstrict.2 hok)
    case h_2 e hr =>
      rw [if_neg (by simp [hstrict.1]), hr] at hok
      cases hok

/-- A call that changes nothing when it fails. -/
def Atomic (step : α → σ → Run σ) (act : α) : Prop :=
  ∀ s e, (step act s).result = .error e → (step act s).state = s

/-- Where no failing call changes anything, a run leaves behind what its succeeding calls leave
behind without the others. -/
lemma Atomic.runs_succeeding (h : ∀ act, Atomic step act) (cs : List (Call α)) (s : σ) :
    Runs step (Call.succeeding step cs s) s (Call.runAll step cs s).state := by
  induction cs generalizing s with
  | nil => exact .nil
  | cons c cs ih =>
    rw [Call.runAll_cons_state, Call.succeeding, Call.made, List.filter_cons]
    cases hs : (step c.act s).succeeded with
    | true =>
      have hgoes : c.goesOn step s = true := by simp [Call.goesOn, hs]
      rw [if_pos rfl, if_pos hgoes, if_pos hgoes, List.map_cons]
      exact .cons (Run.succeeded_iff.1 hs) (ih _)
    | false =>
      obtain ⟨e, he⟩ := Run.not_succeeded_iff.1 hs
      rw [if_neg Bool.false_ne_true, h c.act s e he]
      split
      case isTrue => exact ih s
      case isFalse => exact .nil

end SharpSmith.Build
