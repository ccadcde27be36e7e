import SharpSmith.Proofs.Outcome
import SharpSmith.Proofs.PositionTables
import SharpSmith.Proofs.StatementGrammar

/-!
# Statements by positions

The end of a statement is found once more, now as a position in the list of all tokens: groups are
passed over by a jump to the partner of their opener. `Agree` relates this to the reading of
statements that goes on with the tokens that are left; it is kept by each step, and so by a whole
reading. The first `;` outside of groups is found by counting the groups that are open, and the
count is never below zero.
-/

namespace SharpSmith.Positions

open Fragment Statement

/-- A checked computation agrees with another one: no check fails, and both find the same fault, at
a place that `P` allows, or results that `R` relates. -/
inductive Agree {α β : Type} (P : Span → Prop) (R : α → β → Prop) :
    Checked α → Except Located β → Prop where
  | error {e} :
    P e.span →
    Agree P R (certain (.error e)) (.error e)
  | ok {a b} :
    R a b →
    Agree P R (certain (.ok a)) (.ok b)

section Agree

variable {α β γ δ : Type} {P : Span → Prop} {R : α → β → Prop} {S : γ → δ → Prop}

/-- Computations that agree one step after the other agree. -/
lemma Agree.bind {x y} {f : α → Checked γ} {g : β → Except Located δ} (hx : Agree P R x y)
    (hf : ∀ a b, R a b → Agree P S (f a) (g b)) : Agree P S (x >>= f) (y >>= g) := by
  cases hx with
  | error he => exact .error he
  | ok h => exact hf _ _ h

/-- Results that agree in one way also agree in a weaker one. -/
lemma Agree.mono {R' : α → β → Prop} {x y} (h : Agree P R x y) (hr : ∀ a b, R a b → R' a b) :
    Agree P R' x y := by
  cases h with
  | error he => exact .error he
  | ok h => exact .ok (hr _ _ h)

end Agree

section Faults

variable {xs : List (Token × Role)} {ts : List Token}

/-- An operator that is found to stand twice is one of the tokens. -/
lemma mem_of_doubledOperator? {t} (h : doubledOperator? xs = some t) : t ∈ xs.map Prod.fst := by
  induction xs with
  | nil => cases h
  | cons p xs ih =>
    cases xs with
    | nil => cases h
    | cons c xs =>
      rw [doubledOperator?] at h
      split at h
      case isTrue =>
        cases h
        exact .tail _ (.head _)
      case isFalse => exact .tail _ (ih h)

/-- An operator that is found to lack an operand is one of the tokens. -/
lemma mem_of_danglingOperator? {t} (h : danglingOperator? xs = some t) : t ∈ xs.map Prod.fst := by
  obtain ⟨x, hx, h⟩ := Option.bind_eq_some_iff.1 h
  dsimp only at h
  split at h
  case isFalse => cases h
  case isTrue =>
    cases h
    exact List.mem_map_of_mem (List.mem_of_getLast? hx)

/-- The fault of a run is at one of its tokens. -/
lemma exists_of_operandFault? {e} (h : operandFault? ts = some e) : ∃ t ∈ ts, e.span = t.span := by
  rw [operandFault?] at h
  split at h
  case h_1 t ht =>
    cases h
    exact ⟨t, List.mem_of_mem_head? (Option.filter_eq_some_iff.1 ht).1, rfl⟩
  case h_2 =>
    split at h
    case h_1 t ht =>
      cases h
      have hmem := mem_of_doubledOperator? ht
      rw [map_fst_roles] at hmem
      exact ⟨t, hmem, rfl⟩
    case h_2 =>
      obtain ⟨t, ht, rfl⟩ := Option.map_eq_some_iff.1 h
      have hmem := mem_of_danglingOperator? ht
      rw [map_fst_roles] at hmem
      exact ⟨t, hmem, rfl⟩

end Faults

/-- The tokens from place `i` on, whose delimiters are balanced. -/
structure At (ts : List Token) (i : Nat) (us : List Token) : Prop where
  le : i ≤ ts.length
  drop : ts.drop i = us
  balanced : Balanced us

/-- The tokens from a place on that is not before place `i`. -/
structure Since (ts : List Token) (i j : Nat) (us : List Token) : Prop extends At ts j us where
  not_before : i ≤ j

section At

variable {ts us : List Token} {i : Nat}

/-- A place and the tokens from it on make up all tokens. -/
lemma At.length (h : At ts i us) : i + us.length = ts.length := by
  rw [← h.drop, List.length_drop, Nat.add_sub_cancel' h.le]

/-- Looking ahead from a place sees the tokens from it on. -/
lemma At.tokenAt? (h : At ts i us) (k : Nat) : tokenAt? ts (i + k) = us[k]? := by
  rw [← h.drop, Positions.tokenAt?, List.getElem?_drop]

/-- At a place stands the first of the tokens from it on. -/
lemma At.head? (h : At ts i us) : Positions.tokenAt? ts i = us.head? := by
  rw [List.head?_eq_getElem?, ← h.tokenAt?, Nat.add_zero]

/-- The tokens from a place on are among all tokens. -/
lemma At.mem (h : At ts i us) {t} (ht : t ∈ us) : t ∈ ts := by
  rw [← h.drop] at ht
  exact List.mem_of_mem_drop ht

/-- All tokens are those before a place and those from it on. -/
lemma At.split (h : At ts i us) : ts = ts.take i ++ us := by
  rw [← h.drop, List.take_append_drop]

/-- After some of the tokens from a place on stands what is left of them. -/
lemma At.after {vs ws : List Token} (h : At ts i us) (hu : us = vs ++ ws) (hb : Balanced ws) :
    Since ts i (i + vs.length) ws where
  le := by
    rw [← h.length, hu, List.length_append]
    omega
  drop := by rw [← List.drop_drop, h.drop, hu, List.drop_left]
  balanced := hb
  not_before := Nat.le_add_right _ _

/-- After a token that opens nothing the rest is balanced too. -/
lemma At.next {t : Token} (h : At ts i (t :: us)) (ht : t.opens = false) : At ts (i + 1) us := by
  have hu : t :: us = [t] ++ us := rfl
  exact (h.after hu (h.balanced.tail ht)).toAt

/-- What is not before a place is not before an earlier one. -/
lemma Since.mono {i' j : Nat} (h : Since ts i j us) (hi : i' ≤ i) : Since ts i' j us :=
  ⟨h.toAt, Nat.le_trans hi h.not_before⟩

end At

section Scan

variable (size : Nat) (ts : List Token) (table : List (Option Nat))

/-- Whether the token at a place is the given punctuator. -/
def isAt (i : Nat) (text : String) : Bool :=
  (tokenAt? ts i).any (·.is text)

/-- Whether the token at a place is the given reserved word. -/
def isKeywordAt (i : Nat) (word : String) : Bool :=
  (tokenAt? ts i).any (·.isKeyword word)

/-- A fault at the token of a place, or at the end of a text of `size` bytes. -/
def faultNear (fault : Fault) (i : Nat) : Located :=
  match tokenAt? ts i with
  | some t => Fault.at fault t
  | none => ⟨fault, ⟨size, 0⟩⟩

/-- The entry of a table of partners. -/
def entryAt? (i : Nat) : Option (Option Nat) :=
  table[i]?

/-- The place after the group that starts at place `i`. -/
def groupEnd (opener : String) (i : Nat) : Checked Nat :=
  if isAt ts i opener then do
    let close ← (entryAt? table i).join
    return close + 1
  else throw (faultNear size ts (.expected opener) i)

/-- The place of the first `;` outside of groups, from place `i` on. -/
def semicolonAt : (budget i : Nat) → Option (Option Nat)
  | 0, _ => none
  | budget + 1, i =>
    if i < ts.length then do
      let t ← tokenAt? ts i
      if t.opens then
        match ← entryAt? table i with
        | some close => semicolonAt budget (close + 1)
        | none => semicolonAt budget (i + 1)
      else if t.is ";" then some (some i)
      else semicolonAt budget (i + 1)
    else some none

/-- The tokens from one place up to another. -/
def tokensBetween? (i j : Nat) : Option (List Token) :=
  if i ≤ j ∧ j ≤ ts.length then some ((ts.drop i).take (j - i)) else none

/-- The place after the simple statement that starts at place `i`. -/
def simpleEnd (i : Nat) : Checked Nat := do
  match ← semicolonAt ts table (ts.length + 1) i with
  | some j =>
    let run ← tokensBetween? ts i j
    match ← operandFaultAt run with
    | some e => throw e
    | none => return j + 1
  | none => throw (faultNear size ts (.expected ";") (ts.length - 1))

/-- The place after the header that a `catch` clause may have at place `i`. -/
def headerEnd (i : Nat) : Checked Nat :=
  if isAt ts i "(" then groupEnd size ts table "(" i else return i

/-- The place after the filter that a `catch` clause may have at place `i`. -/
def filterEnd (i : Nat) : Checked Nat :=
  if (tokenAt? ts i).any (·.text == "when") then groupEnd size ts table "(" (i + 1) else return i

/-- The place after the `catch` clause whose word is just before place `i`. -/
def catchEnd (i : Nat) : Checked Nat := do
  let i ← headerEnd size ts table i
  let i ← filterEnd size ts table i
  groupEnd size ts table "\x7b" i

/-- The place after all `catch` clauses, and whether there was one. -/
def catchesEnd (handled : Bool) : (budget i : Nat) → Checked (Nat × Bool)
  | 0, _ => ExceptT.mk none
  | budget + 1, i =>
    if isKeywordAt ts i "catch" then do
      catchesEnd true budget (← catchEnd size ts table (i + 1))
    else return (i, handled)

/-- The place after the `try` statement whose word is just before place `i`. -/
def tryEnd (i : Nat) : Checked Nat := do
  let i ← groupEnd size ts table "\x7b" i
  let (i, handled) ← catchesEnd size ts table false (ts.length + 1) i
  if isKeywordAt ts i "finally" then groupEnd size ts table "\x7b" (i + 1)
  else if handled then return i
  else throw (faultNear size ts .expectedHandler i)

/-- The place after a `do` statement whose body ends before place `i`. -/
def doEnd (i : Nat) : Checked Nat :=
  if isKeywordAt ts i "while" then do
    let i ← groupEnd size ts table "(" (i + 1)
    if isAt ts i ";" then return i + 1
    else throw (faultNear size ts (.expected ";") i)
  else throw (faultNear size ts (.expected "while") i)

/-- The place after the statement that starts at place `i`. -/
def statementEnd : (budget i : Nat) → Checked Nat
  | 0, _ => ExceptT.mk none
  | budget + 1, i =>
    match tokenAt? ts i with
    | none => throw (faultNear size ts .missingStatement i)
    | some t =>
      if t.is "\x7b" then groupEnd size ts table "\x7b" i
      else if t.is ";" then return i + 1
      else if t.isKeyword "switch" then do
        groupEnd size ts table "\x7b" (← groupEnd size ts table "(" (i + 1))
      else if t.isKeyword "if" then do
        let body ← groupEnd size ts table "(" (i + 1)
        let rest ← statementEnd budget body
        if isKeywordAt ts rest "else" then statementEnd budget (rest + 1) else return rest
      else if t.isKeywordIn headed || (t.isKeyword "using" && isAt ts (i + 1) "(") then do
        let body ← groupEnd size ts table "(" (i + 1)
        statementEnd budget body
      else if t.isKeyword "do" then do
        let rest ← statementEnd budget (i + 1)
        doEnd size ts table rest
      else if t.isKeyword "try" then tryEnd size ts table (i + 1)
      else if t.isKeywordIn blockModes && isAt ts (i + 1) "\x7b" then
        groupEnd size ts table "\x7b" (i + 1)
      else simpleEnd size ts table i

end Scan

section Agreement

variable {P : Span → Prop} {size : Nat} {ts us : List Token} {table : List (Option Nat)} {i : Nat}

/-- A table of partners, and the places of faults that are in the text of its tokens. -/
structure Scanned (P : Span → Prop) (size : Nat) (ts : List Token) (table : List (Option Nat)) :
    Prop where
  partners : Delimiters.partners ts = .ok table
  finish : P ⟨size, 0⟩
  token : ∀ t ∈ ts, P t.span

/-- Whether a punctuator stands at a place is seen from the tokens from it on. -/
lemma isAt_eq (h : At ts i us) (text : String) : isAt ts i text = startsAt text us := by
  rw [isAt, h.head?, startsAt]

/-- Whether a punctuator stands at the next place is seen from the tokens after the first. -/
lemma isAt_next {t : Token} (h : At ts i (t :: us)) (text : String) :
    isAt ts (i + 1) text = startsAt text us := by
  rw [isAt, h.tokenAt? 1, startsAt, List.head?_eq_getElem?]
  rfl

/-- Whether a reserved word stands at a place is seen from the tokens from it on. -/
lemma isKeywordAt_eq (h : At ts i us) (word : String) :
    isKeywordAt ts i word = startsWith word us := by
  rw [isKeywordAt, h.head?, startsWith]

/-- A fault near a place is one before the tokens from it on. -/
lemma faultNear_eq (h : At ts i us) (fault : Fault) :
    faultNear size ts fault i = faultBefore size fault us := by
  rw [faultNear, h.head?]
  cases us <;> rfl

/-- A fault at the next token is in the text. -/
lemma Scanned.faultBefore (hs : Scanned P size ts table) (h : At ts i us) (fault : Fault) :
    P (faultBefore size fault us).span := by
  cases us with
  | nil => exact hs.finish
  | cons t us => exact hs.token t (h.mem (.head _))

/-- Both scans give up at the same place. -/
lemma Scanned.throw {α β : Type} {R : α → β → Prop} (hs : Scanned P size ts table)
    (h : At ts i us) (fault : Fault) :
    Agree P R (throw (faultNear size ts fault i))
      (.error (Statement.faultBefore size fault us)) := by
  rw [faultNear_eq h]
  exact .error (hs.faultBefore h fault)

/-- The partner of an opener is the closer of its group. -/
lemma Scanned.exists_close (hs : Scanned P size ts table) {g vs : List Token} {opener : String}
    (h : At ts i us) (hu : us = g ++ vs) (hg : Group opener g) :
    ∃ close, entryAt? table i = some (some close) ∧ close + 1 = i + g.length := by
  cases hg with
  | @mk o mid c _ ho hc hmid =>
    have hend : i + mid.length + 1 + 1 = i + (o :: (mid ++ [c])).length := by simp [Nat.add_assoc]
    refine ⟨i + mid.length + 1, (getElem?_partners hs.partners).2 (.inl ?_), hend⟩
    refine ⟨ts.take i, o, mid, c, vs, ?_, List.length_take_of_le h.le, rfl, ho, hc, hmid⟩
    have hsplit : us = o :: (mid ++ c :: vs) := by rw [hu]; simp
    rw [← hsplit]
    exact h.split

/-- Both scans pass over the same group. -/
lemma agree_groupEnd (hs : Scanned P size ts table) (h : At ts i us) {opener : String}
    (ho : opener = "(" ∨ opener = "\x7b") :
    Agree P (Since ts (i + 1)) (groupEnd size ts table opener i) (group size opener us) := by
  rw [groupEnd, isAt_eq h]
  cases us with
  | nil => exact hs.throw h _
  | cons t us =>
    rw [group, startsAt, List.head?_cons, Option.any_some]
    split
    case isFalse => exact hs.throw h _
    case isTrue hi =>
      have hopens : t.opens = true := by
        rcases ho with rfl | rfl <;> simp [Token.opens, hi]
      obtain ⟨g, vs, rfl, hg, hb⟩ := h.balanced.exists_group hi hopens
      have hsplit : t :: (g ++ vs) = (t :: g) ++ vs := rfl
      obtain ⟨close, hclose, hplace⟩ := hs.exists_close h hsplit hg
      have hjoin : (Positions.entryAt? table i).join = some close := by rw [hclose]; rfl
      rw [lift_bind hjoin, afterGroup_group hg]
      refine .ok ⟨?_, ?_⟩
      · rw [hplace]
        exact (h.after hsplit hb).toAt
      · rw [hplace, List.length_cons]
        omega

/-- The first `;` outside of groups is found by jumps over these. -/
lemma semicolonAt_eq {budget : Nat} (hs : Scanned P size ts table) (h : At ts i us)
    (hb : us.length < budget) :
    semicolonAt ts table budget i = some ((cutAtSemicolon? 0 us).map (i + ·.1.length)) := by
  have hbalanced := h.balanced
  induction hbalanced generalizing i budget with
  | nil =>
    obtain ⟨budget, rfl, -⟩ := exists_budget hb
    have hplace := h.length
    rw [semicolonAt, if_neg (by simp at hplace; omega)]
    rfl
  | @token t vs ho hc _ ih =>
    obtain ⟨budget, rfl, hle⟩ := exists_budget hb
    have hplace := h.length
    have ht : tokenAt? ts i = some t := h.head?
    rw [semicolonAt, if_pos (by simp at hplace; omega), bind_of_eq_some ht, ho,
      cutAtSemicolon?]
    cases hsemi : t.is ";" with
    | true => rfl
    | false =>
      have hrest := ih (h.next ho) hle
      simp only [Bool.false_eq_true, if_false, ho, hc, hrest, decide_true, Bool.and_false,
        Option.map_map]
      congr 2
      funext r
      exact (Nat.add_assoc i 1 _).trans (congrArg (i + ·) (Nat.add_comm 1 _))
  | @group o vs c ws ho hc hvs _ _ ih =>
    obtain ⟨budget, rfl, hle⟩ := exists_budget hb
    have hplace := h.length
    have ht : tokenAt? ts i = some o := h.head?
    have hg : Group o.text (o :: (vs ++ [c])) := .mk (is_text_of_opens ho) ho hc hvs
    have hsplit : o :: (vs ++ c :: ws) = o :: (vs ++ [c]) ++ ws := by simp
    obtain ⟨close, hclose, hend⟩ := hs.exists_close h hsplit hg
    rw [semicolonAt, if_pos (by simp at hplace; omega), bind_of_eq_some ht, if_pos ho,
      bind_of_eq_some hclose]
    have hnext := (h.after hsplit ‹_›).toAt
    rw [← hend] at hnext
    have hlength : ws.length < budget := by
      simp at hle
      omega
    dsimp only
    rw [ih hnext hlength, hsplit, cutAtSemicolon?_group hg, Option.map_map, hend]
    congr 2
    funext r
    simp only [Function.comp, List.length_append]
    omega

/-- Both scans pass over the same simple statement. -/
lemma agree_simpleEnd (hs : Scanned P size ts table) (h : At ts i us) (hne : us ≠ []) :
    Agree P (Since ts (i + 1)) (simpleEnd size ts table i) (afterSimple size us) := by
  have hlength : us.length < ts.length + 1 := by
    rw [← h.length]
    omega
  rw [simpleEnd, lift_bind (semicolonAt_eq hs h hlength), afterSimple]
  cases hcut : cutAtSemicolon? 0 us with
  | none =>
    have hlast : tokenAt? ts (ts.length - 1) = us.getLast? := by
      rw [h.split, tokenAt?, ← List.getLast?_eq_getElem?, List.getLast?_append_of_ne_nil _ hne]
    have hfault : faultNear size ts (.expected ";") (ts.length - 1) =
        faultBefore size (.expected ";") us.getLast?.toList := by
      rw [faultNear, hlast]
      cases us.getLast? <;> rfl
    dsimp only [Option.map_none]
    rw [hfault]
    refine .error ?_
    cases hu : us.getLast? with
    | none => exact hs.finish
    | some t => exact hs.token t (h.mem (List.mem_of_getLast? hu))
  | some cut =>
    obtain ⟨before, semicolon, rest⟩ := cut
    obtain ⟨hsplit, -, -, hb⟩ := run_of_cutAtSemicolon? h.balanced hcut
    have hbetween : tokensBetween? ts i (i + before.length) = some before := by
      have hlength := h.length
      rw [tokensBetween?, if_pos (by simp [hsplit] at hlength; omega), Nat.add_sub_cancel_left,
        h.drop, hsplit, List.take_left]
    dsimp only [Option.map_some]
    rw [lift_bind hbetween, lift_bind operandFaultAt_eq]
    cases hfault : operandFault? before with
    | some e =>
      obtain ⟨t, ht, he⟩ := exists_of_operandFault? hfault
      refine .error ?_
      rw [he]
      refine hs.token t (h.mem ?_)
      rw [hsplit]
      exact List.mem_append_left _ ht
    | none =>
      have hall : us = before ++ [semicolon] ++ rest := by rw [hsplit]; simp
      have hrest := h.after hall hb
      rw [List.length_append, List.length_singleton, ← Nat.add_assoc] at hrest
      exact .ok ⟨hrest.toAt, by omega⟩

/-- Both scans pass over the same header of a clause, if there is one. -/
lemma agree_headerEnd (hs : Scanned P size ts table) (h : At ts i us) :
    Agree P (Since ts i) (headerEnd size ts table i)
      (if startsAt "(" us then group size "(" us else .ok us) := by
  rw [headerEnd, isAt_eq h]
  split
  case isTrue =>
    exact (agree_groupEnd hs h (.inl rfl)).mono fun _ _ hj => hj.mono (Nat.le_succ i)
  case isFalse => exact .ok ⟨h, Nat.le_refl i⟩

/-- Both scans pass over the same filter of a clause, if there is one. -/
lemma agree_filterEnd (hs : Scanned P size ts table) (h : At ts i us) :
    Agree P (Since ts i) (filterEnd size ts table i)
      (if us.head?.any (·.text == "when") then group size "(" us.tail else .ok us) := by
  rw [filterEnd, h.head?]
  split
  case isTrue hw =>
    cases us with
    | nil => cases hw
    | cons t us =>
      have hwhen : t.text = "when" := by simpa using hw
      have ht : t.opens = false := by simp [Token.opens, Token.is, hwhen]
      exact (agree_groupEnd hs (h.next ht) (.inl rfl)).mono fun _ _ hj => hj.mono (by omega)
  case isFalse => exact .ok ⟨h, Nat.le_refl i⟩

/-- Both scans pass over the same clause. -/
lemma agree_catchEnd (hs : Scanned P size ts table) (h : At ts i us) :
    Agree P (Since ts i) (catchEnd size ts table i) (afterCatch size us) := by
  rw [catchEnd, afterCatch_eq]
  refine (agree_headerEnd hs h).bind fun j vs hj => ?_
  refine (agree_filterEnd hs hj.toAt).bind fun k ws hk => ?_
  refine (agree_groupEnd hs hk.toAt (.inr rfl)).mono fun _ _ hl => hl.mono ?_
  exact Nat.le_succ_of_le (Nat.le_trans hj.not_before hk.not_before)

/-- Every `catch` clause takes a token, so no budget is used up. -/
lemma agree_catchesEnd (hs : Scanned P size ts table) {handled : Bool} {budget budget' : Nat}
    (h : At ts i us) (hb : us.length < budget) (hb' : us.length ≤ budget') :
    Agree P (fun a b => Since ts i a.1 b.1 ∧ a.2 = b.2) (catchesEnd size ts table handled budget i)
      (afterCatches size handled budget' us) := by
  induction budget generalizing handled budget' i us with
  | zero => cases hb
  | succ budget ih =>
    rw [catchesEnd, isKeywordAt_eq h]
    cases us with
    | nil => cases budget' <;> exact .ok ⟨⟨h, Nat.le_refl i⟩, rfl⟩
    | cons t us =>
      obtain ⟨budget', rfl, hle⟩ := exists_budget hb'
      rw [afterCatches]
      split
      case isFalse => exact .ok ⟨⟨h, Nat.le_refl i⟩, rfl⟩
      case isTrue hc =>
        have ht : t.isKeyword "catch" = true := by simpa [startsWith] using hc
        have hnext := h.next (opens_of_isKeyword ht)
        refine (agree_catchEnd hs hnext).bind fun j vs hj => ?_
        have hlength := hj.length
        have hlength' := h.length
        have hstart := hj.not_before
        simp only [List.length_cons] at hlength' hb
        refine (ih hj.toAt (by omega) (by omega)).mono fun a b hab => ?_
        exact ⟨hab.1.mono (by omega), hab.2⟩

/-- Both scans pass over the same statement with handlers. -/
lemma agree_tryEnd (hs : Scanned P size ts table) (h : At ts i us) :
    Agree P (Since ts i) (tryEnd size ts table i) (afterTry size us) := by
  rw [tryEnd, afterTry]
  refine (agree_groupEnd hs h (.inr rfl)).bind fun j vs hj => ?_
  have hbudget : vs.length < ts.length + 1 := by
    rw [← hj.length]
    omega
  refine (agree_catchesEnd hs hj.toAt hbudget (Nat.le_refl _)).bind ?_
  rintro ⟨k, handled⟩ ⟨ws, handled'⟩ ⟨hk, rfl⟩
  have hle : i ≤ k := Nat.le_trans (Nat.le_of_succ_le hj.not_before) hk.not_before
  dsimp only
  rw [isKeywordAt_eq hk.toAt]
  split
  case isTrue hf =>
    cases ws with
    | nil => cases hf
    | cons f ws =>
      have hf : f.isKeyword "finally" = true := by simpa [startsWith] using hf
      refine (agree_groupEnd hs (hk.toAt.next (opens_of_isKeyword hf)) (.inr rfl)).mono ?_
      exact fun _ _ hl => hl.mono (by omega)
  case isFalse =>
    split
    case isTrue => exact .ok ⟨hk.toAt, hle⟩
    case isFalse => exact hs.throw hk.toAt _

/-- Both scans pass over the same condition at the end of a loop. -/
lemma agree_doEnd (hs : Scanned P size ts table) (h : At ts i us) :
    Agree P (Since ts i) (doEnd size ts table i) (afterDoBody size us) := by
  rw [doEnd, afterDoBody, isKeywordAt_eq h]
  cases hw : startsWith "while" us with
  | false => exact hs.throw h _
  | true =>
    cases us with
    | nil => cases hw
    | cons t us =>
      have ht : t.isKeyword "while" = true := by simpa [startsWith] using hw
      refine (agree_groupEnd hs (h.next (opens_of_isKeyword ht)) (.inl rfl)).bind fun j vs hj => ?_
      rw [isAt_eq hj.toAt]
      cases hsemi : startsAt ";" vs with
      | false => exact hs.throw hj.toAt _
      | true =>
        cases vs with
        | nil => cases hsemi
        | cons e vs =>
          have he : e.is ";" = true := by simpa [startsAt] using hsemi
          have hstart := hj.not_before
          exact .ok ⟨hj.toAt.next (of_is_semicolon he).1, by omega⟩

section Bodies

variable {f : Nat → Checked Nat} {g : List Token → Except Located (List Token)}

/-- A header and a body end alike when statements further on do. -/
lemma agree_headedEnd (hs : Scanned P size ts table) (h : At ts i us)
    (hf : ∀ {j vs}, Since ts i j vs → Agree P (Since ts (j + 1)) (f j) (g vs)) :
    Agree P (Since ts i) (groupEnd size ts table "(" i >>= f) (group size "(" us >>= g) := by
  refine (agree_groupEnd hs h (.inl rfl)).bind fun j vs hj => ?_
  have hstart := hj.not_before
  exact (hf (hj.mono (Nat.le_succ i))).mono fun _ _ hk => hk.mono (by omega)

/-- A body that `else` and another one may follow ends alike when statements further on do. -/
lemma agree_elseEnd {j : Nat} {vs : List Token} (hj : Since ts i j vs)
    (hf : ∀ {j vs}, Since ts i j vs → Agree P (Since ts (j + 1)) (f j) (g vs)) :
    Agree P (Since ts (j + 1))
      (f j >>= fun k => if isKeywordAt ts k "else" then f (k + 1) else return k)
      (g vs >>= fun ws => if startsWith "else" ws then g ws.tail else return ws) := by
  refine (hf hj).bind fun k ws hk => ?_
  have hstart := hj.not_before
  have hstart' := hk.not_before
  rw [isKeywordAt_eq hk.toAt]
  split
  case isTrue helse =>
    cases ws with
    | nil => cases helse
    | cons e ws =>
      have he : e.isKeyword "else" = true := by simpa [startsWith] using helse
      have hother := hk.toAt.next (opens_of_isKeyword he)
      exact (hf ⟨hother, by omega⟩).mono fun _ _ hl => hl.mono (by omega)
  case isFalse => exact .ok hk

end Bodies

/-- Every statement takes a token, so no budget is used up. -/
lemma agree_statementEnd (hs : Scanned P size ts table) {budget budget' : Nat} (h : At ts i us)
    (hb : us.length < budget) (hb' : us.length ≤ budget') :
    Agree P (Since ts (i + 1)) (statementEnd size ts table budget i)
      (afterStatement size budget' us) := by
  induction budget generalizing budget' i us with
  | zero => cases hb
  | succ budget ih =>
    rw [statementEnd, h.head?]
    cases us with
    | nil => cases budget' <;> exact hs.throw h _
    | cons t us =>
      obtain ⟨budget', rfl, hle⟩ := exists_budget hb'
      have hsmaller : us.length < budget := Nat.lt_of_succ_lt_succ hb
      have hplace := h.length
      rw [List.length_cons] at hplace
      -- a statement further on has a budget left on both sides
      have hinner : ∀ {j vs}, Since ts (i + 1) j vs → Agree P (Since ts (j + 1))
          (statementEnd size ts table budget j) (afterStatement size budget' vs) := by
        intro j vs hj
        have hlength := hj.length
        have hstart := hj.not_before
        exact ih hj.toAt (by omega) (by omega)
      rw [afterStatement, List.head?_cons]
      dsimp only
      by_cases hbrace : t.is "\x7b" = true
      · have hgroup := agree_groupEnd hs h (.inr rfl)
        rw [group, if_pos hbrace] at hgroup
        rwa [if_pos hbrace, if_pos hbrace]
      rw [if_neg hbrace, if_neg hbrace]
      by_cases hsemi : t.is ";" = true
      · rw [if_pos hsemi, if_pos hsemi]
        exact .ok ⟨h.next (of_is_semicolon hsemi).1, Nat.le_refl _⟩
      rw [if_neg hsemi, if_neg hsemi]
      by_cases hswitch : t.isKeyword "switch" = true
      · rw [if_pos hswitch, if_pos hswitch]
        have hnext := h.next (opens_of_isKeyword hswitch)
        refine (agree_groupEnd hs hnext (.inl rfl)).bind fun j vs hj => ?_
        have hstart := hj.not_before
        exact (agree_groupEnd hs hj.toAt (.inr rfl)).mono fun _ _ hk => hk.mono (by omega)
      rw [if_neg hswitch, if_neg hswitch]
      by_cases hif : t.isKeyword "if" = true
      · rw [if_pos hif, if_pos hif]
        exact agree_headedEnd hs (h.next (opens_of_isKeyword hif)) fun hj => agree_elseEnd hj hinner
      rw [if_neg hif, if_neg hif, isAt_next h, isAt_next h]
      by_cases hheaded : (t.isKeywordIn headed || t.isKeyword "using" && startsAt "(" us) = true
      · rw [if_pos hheaded, if_pos hheaded]
        have ht : t.opens = false := by
          rw [Bool.or_eq_true, Bool.and_eq_true] at hheaded
          exact hheaded.elim opens_of_isKeywordIn fun hu => opens_of_isKeyword hu.1
        exact agree_headedEnd hs (h.next ht) hinner
      rw [if_neg hheaded, if_neg hheaded]
      by_cases hdo : t.isKeyword "do" = true
      · rw [if_pos hdo, if_pos hdo]
        refine (hinner ⟨h.next (opens_of_isKeyword hdo), Nat.le_refl _⟩).bind fun j vs hj => ?_
        have hstart := hj.not_before
        exact (agree_doEnd hs hj.toAt).mono fun _ _ hk => hk.mono (by omega)
      rw [if_neg hdo, if_neg hdo]
      split
      case isTrue htry => exact agree_tryEnd hs (h.next (opens_of_isKeyword htry))
      split
      case isTrue hmode =>
        rw [Bool.and_eq_true] at hmode
        have hnext := h.next (opens_of_isKeywordIn hmode.1)
        exact (agree_groupEnd hs hnext (.inr rfl)).mono fun _ _ hj => hj.mono (Nat.le_succ _)
      case isFalse => exact agree_simpleEnd hs h (List.cons_ne_nil t us)

end Agreement

section Runs

variable {P : Span → Prop} {size : Nat} {ts us : List Token} {table : List (Option Nat)} {i : Nat}

/-- The first `;` outside of groups from place `i` on, where `depth` groups are open. -/
def topSemicolonFrom (table : List (Option Nat)) (i depth : Nat) :
    List Token → Option (Option Token)
  | [] => some none
  | t :: ts =>
    if t.opens then topSemicolonFrom table (i + 1) (depth + 1) ts
    else do
      let entry ← entryAt? table i
      if entry.isSome then
        let depth ← sub? depth 1
        topSemicolonFrom table (i + 1) depth ts
      else if depth = 0 && t.is ";" then some (some t)
      else topSemicolonFrom table (i + 1) depth ts

/-- What is no opener has an entry just if it is a closer. -/
lemma Scanned.exists_entry (hs : Scanned P size ts table) {t : Token} (ht : tokenAt? ts i = some t)
    (ho : t.opens = false) :
    ∃ entry, Positions.entryAt? table i = some entry ∧ entry.isSome = t.closes := by
  have hpartnered := partnered hs.partners
  have hi : i < table.length := by
    rw [hpartnered.length_eq]
    exact (List.getElem?_eq_some_iff.1 ht).1
  refine ⟨table[i], List.getElem?_eq_getElem hi, ?_⟩
  have hdelimiter := hpartnered.delimiter i t ht
  rw [isDelimiter_eq, ho, Bool.false_or, List.getElem?_eq_getElem hi] at hdelimiter
  rw [Bool.eq_iff_iff, ← hdelimiter, Option.isSome_iff_exists]
  simp

/-- The first token from a place on is the one at it. -/
lemma tokenAt?_of_drop {t : Token} (h : ts.drop i = t :: us) : tokenAt? ts i = some t := by
  rw [tokenAt?, ← List.head?_drop, h, List.head?_cons]

/-- The tokens from the next place on are the others. -/
lemma drop_next {t : Token} (h : ts.drop i = t :: us) : ts.drop (i + 1) = us := by
  rw [← List.tail_drop, h, List.tail_cons]

/-- A `;` after an opener is looked for one level deeper. -/
lemma topSemicolonFrom_opens {depth : Nat} {t : Token} (ht : t.opens = true) :
    topSemicolonFrom table i depth (t :: us) = topSemicolonFrom table (i + 1) (depth + 1) us :=
  if_pos ht

/-- A closer ends a group that is open, so the depth is not below zero. -/
lemma topSemicolonFrom_closes (hs : Scanned P size ts table) {depth : Nat} {t : Token}
    (h : ts.drop i = t :: us) (ht : t.closes = true) :
    topSemicolonFrom table i (depth + 1) (t :: us) = topSemicolonFrom table (i + 1) depth us := by
  have ho := opens_of_closes ht
  obtain ⟨entry, hentry, hsome⟩ := hs.exists_entry (tokenAt?_of_drop h) ho
  have hsub : sub? (depth + 1) 1 = some depth := by simp [sub?]
  rw [topSemicolonFrom, ho, if_neg (by decide), bind_of_eq_some hentry, hsome, if_pos ht,
    bind_of_eq_some hsub]

/-- Balanced tokens in a group are passed over. -/
lemma topSemicolonFrom_balanced (hs : Scanned P size ts table) {depth : Nat} {vs : List Token}
    (hb : Balanced us) (h : ts.drop i = us ++ vs) :
    topSemicolonFrom table i (depth + 1) (us ++ vs) =
      topSemicolonFrom table (i + us.length) (depth + 1) vs := by
  induction hb generalizing i depth vs with
  | nil => rfl
  | @token t us ho hc _ ih =>
    obtain ⟨entry, hentry, hsome⟩ := hs.exists_entry (tokenAt?_of_drop h) ho
    rw [List.cons_append, topSemicolonFrom, ho, if_neg (by decide), bind_of_eq_some hentry, hsome,
      hc, if_neg (by decide), if_neg (by simp), ih (drop_next h), List.length_cons, Nat.add_assoc,
      Nat.add_comm 1]
  | @group o us c ws ho hc _ _ ih₁ ih₂ =>
    have hinner : ts.drop (i + 1) = us ++ c :: (ws ++ vs) := by
      rw [drop_next h]
      exact List.append_assoc ..
    have hcloser : ts.drop (i + 1 + us.length) = c :: (ws ++ vs) := by
      rw [← List.drop_drop, hinner, List.drop_left]
    rw [List.cons_append, List.append_assoc, List.cons_append, topSemicolonFrom_opens ho,
      ih₁ hinner, topSemicolonFrom_closes hs hcloser (closes_of_closes? hc),
      ih₂ (drop_next hcloser)]
    congr 1
    simp only [List.length_cons, List.length_append]
    omega

/-- The first `;` outside of groups is the one that a balanced list of tokens is cut at. -/
lemma topSemicolonFrom_eq (hs : Scanned P size ts table) (h : At ts i us) :
    topSemicolonFrom table i 0 us = some ((cutAtSemicolon? 0 us).map (·.2.1)) := by
  have hbalanced := h.balanced
  induction hbalanced generalizing i with
  | nil => rfl
  | @token t us ho hc _ ih =>
    obtain ⟨entry, hentry, hsome⟩ := hs.exists_entry h.head? ho
    rw [topSemicolonFrom, ho, if_neg (by decide), bind_of_eq_some hentry, hsome, hc,
      if_neg (by decide), cutAtSemicolon?]
    split
    case isTrue => rfl
    case isFalse =>
      rw [ih (h.next ho), ho, hc, Option.map_map]
      rfl
  | @group o us c ws ho hc hus hws _ ih =>
    have hg : Group o.text (o :: (us ++ [c])) := .mk (is_text_of_opens ho) ho hc hus
    have hsplit : o :: (us ++ c :: ws) = o :: (us ++ [c]) ++ ws := by simp
    have hinner : ts.drop (i + 1) = us ++ c :: ws := drop_next h.drop
    have hcloser : ts.drop (i + 1 + us.length) = c :: ws := by
      rw [← List.drop_drop, hinner, List.drop_left]
    have hrest : At ts (i + 1 + us.length + 1) ws := by
      have hafter := (h.after hsplit hws).toAt
      have hplace : i + (o :: (us ++ [c])).length = i + 1 + us.length + 1 := by
        simp only [List.length_cons, List.length_append, List.length_nil]
        omega
      rwa [hplace] at hafter
    rw [topSemicolonFrom_opens ho, topSemicolonFrom_balanced hs hus hinner,
      topSemicolonFrom_closes hs hcloser (closes_of_closes? hc), ih hrest, hsplit,
      cutAtSemicolon?_group hg, Option.map_map]
    rfl

end Runs

end SharpSmith.Positions
