import SharpSmith.Fragment.Expression
import SharpSmith.Proofs.Partners
import SharpSmith.Proofs.Positions
import SharpSmith.Proofs.Rereading
import SharpSmith.Proofs.TypeArguments

/-!
# Tokens by their positions

The partners of delimiters, the brackets of type arguments and the roles of tokens are found once
more, now in tables that have an entry for every token and are read and changed at positions. Every
look-up and every difference is checked, and no check ever fails.
-/

namespace SharpSmith.Positions

open Fragment

/-- The token at a position. -/
def tokenAt? (ts : List Token) (i : Nat) : Option Token :=
  ts[i]?

/-- The token after some others stands at the place that they make up. -/
lemma tokenAt?_append {before rest : List Token} {t : Token} :
    tokenAt? (before ++ t :: rest) before.length = some t := by
  rw [tokenAt?, List.getElem?_append_right (Nat.le_refl _), Nat.sub_self]
  rfl

/-- What follows a check that does not fail goes on with its result. -/
lemma bind_of_eq_some {α β : Type} {x : Option α} {a : α} {f : α → Option β} (h : x = some a) :
    (x >>= f) = f a := by
  rw [h]
  rfl

/-- What is found at the position before another, if there is one before it. -/
def previous? {α : Type} (find? : Nat → Option α) (i : Nat) : Option (Option α) :=
  if 0 < i then (sub? i 1).bind fun i => (find? i).map some else some none

/-- Looking one place back sees the last of those before, if there is one. -/
lemma previous?_eq {α : Type} {find? : Nat → Option α} {before : List α}
    (h : ∀ front x, before = front ++ [x] → find? front.length = some x) :
    previous? find? before.length = some before.getLast? := by
  rcases List.eq_nil_or_concat before with rfl | ⟨front, x, hx⟩
  · rfl
  · rw [List.concat_eq_append] at hx
    have hlast : sub? before.length 1 = some front.length := by simp [hx, sub?]
    rw [previous?, if_pos (by simp [hx]), hlast, Option.bind_some, h front x hx, hx,
      List.getLast?_concat, Option.map_some]

/-- A table with another entry at a position. -/
def setAt? {α : Type} (table : List α) (i : Nat) (x : α) : Option (List α) :=
  if i < table.length then some (table.set i x) else none

/-- An entry of a table can be set at each of its places. -/
lemma setAt?_of_lt {α : Type} {table : List α} {i : Nat} {x : α} (h : i < table.length) :
    setAt? table i x = some (table.set i x) :=
  if_pos h

section Partners

variable (ts : List Token)

/-- The partners of all tokens, where `stack` holds the positions of the openers that wait for their
closer, innermost first, and the tokens before `i` are in the table. -/
def partnersFrom (i : Nat) (stack : List Nat) (table : List (Option Nat)) :
    List Token → Checked (List (Option Nat))
  | [] =>
    match stack with
    | [] => return table
    | opened :: _ => do
      let opener ← tokenAt? ts opened
      throw (Fault.at (.unclosed opener.text) opener)
  | t :: rest =>
    if t.opens then partnersFrom (i + 1) (i :: stack) table rest
    else
      match t.closes? with
      | none => partnersFrom (i + 1) stack table rest
      | some opening =>
        match stack with
        | [] => throw (Fault.at (.unexpected t.text) t)
        | opened :: stack => do
          let opener ← tokenAt? ts opened
          if opener.text == opening then
            let table ← setAt? table opened (some i)
            let table ← setAt? table i (some opened)
            partnersFrom (i + 1) stack table rest
          else throw (Fault.at (.mismatched t.text opener.text) t)

/-- The partners of all tokens. -/
def partnersAt : Checked (List (Option Nat)) :=
  partnersFrom ts 0 [] (List.replicate ts.length none) ts

variable {ts}

/-- A table with a pair of positions put in. -/
def pairUp (table : List (Option Nat)) (pair : Nat × Nat) : List (Option Nat) :=
  (table.set pair.1 (some pair.2)).set pair.2 (some pair.1)

/-- The table of partners holds the pairs that are found, and no check fails. -/
lemma partnersFrom_eq {before rest : List Token} {stack : List (Nat × Token)}
    {table : List (Option Nat)} (hts : ts = before ++ rest)
    (hstack : ∀ p ∈ stack, tokenAt? ts p.1 = some p.2) (hlength : table.length = ts.length) :
    partnersFrom ts before.length (stack.map Prod.fst) table rest =
      certain ((Delimiters.pairsFrom before.length stack rest).map (·.foldl pairUp table)) := by
  induction rest generalizing before stack table with
  | nil =>
    cases stack with
    | nil => rfl
    | cons p stack =>
      have hp := hstack p (.head _)
      rw [List.map_cons, partnersFrom, lift_bind hp]
      rfl
  | cons t rest ih =>
    have hnext : ts = before ++ [t] ++ rest := by rw [hts, ← List.append_cons]
    have hlast : before.length + 1 = (before ++ [t]).length := by simp
    have hposition : before.length < table.length := by
      rw [hlength, hts, List.length_append, List.length_cons]
      omega
    rw [partnersFrom, Delimiters.pairsFrom]
    split
    case isTrue =>
      have hpushed : ∀ p ∈ (before.length, t) :: stack, tokenAt? ts p.1 = some p.2 := by
        refine List.forall_mem_cons.2 ⟨?_, hstack⟩
        rw [hts]
        exact tokenAt?_append
      rw [hlast]
      exact ih hnext hpushed hlength
    case isFalse =>
      cases t.closes? with
      | none =>
        dsimp only
        rw [hlast]
        exact ih hnext hstack hlength
      | some opening =>
        cases stack with
        | nil => rfl
        | cons p stack =>
          obtain ⟨hp, hstack⟩ := List.forall_mem_cons.1 hstack
          have hopened : p.1 < table.length := by
            rw [hlength]
            exact (List.getElem?_eq_some_iff.1 hp).1
          rw [List.map_cons]
          dsimp only
          rw [lift_bind hp]
          split
          case isTrue =>
            rw [lift_bind (setAt?_of_lt hopened),
              lift_bind (setAt?_of_lt (by rwa [List.length_set])), hlast,
              ih hnext hstack (by rw [List.length_set, List.length_set, hlength]), ← hlast]
            cases Delimiters.pairsFrom (before.length + 1) stack rest <;> rfl
          case isFalse => rfl

/-- The partner in a list of pairs is that of the first pair, or else that of the others. -/
lemma partnerIn?_cons {p : Nat × Nat} {pairs : List (Nat × Nat)} {i : Nat} :
    Delimiters.partnerIn? (p :: pairs) i =
      if p.1 = i then some p.2 else if p.2 = i then some p.1
      else Delimiters.partnerIn? pairs i := by
  rw [Delimiters.partnerIn?, List.findSome?_cons]
  split <;> split <;> simp_all [Delimiters.partnerIn?]

/-- The places of a pair have each other as entry when the pair is put in a table. -/
lemma getElem?_pairUp {table : List (Option Nat)} {p : Nat × Nat} {i : Nat} (hp : PairAt ts p.1 p.2)
    (hlength : table.length = ts.length) :
    (pairUp table p)[i]? =
      if p.1 = i then some (some p.2) else if p.2 = i then some (some p.1) else table[i]? := by
  have hclose : p.2 < (table.set p.1 (some p.2)).length := by
    obtain ⟨t, ht, -⟩ := hp.isDelimiter.2
    rw [List.length_set, hlength]
    exact (List.getElem?_eq_some_iff.1 ht).1
  have hopen : p.1 < table.length := by
    rw [List.length_set] at hclose
    exact Nat.lt_trans hp.lt hclose
  rw [pairUp]
  split
  case isTrue e =>
    subst e
    rw [List.getElem?_set_ne (Nat.ne_of_gt hp.lt), List.getElem?_set_self hopen]
  case isFalse hne =>
    split
    case isTrue e =>
      subst e
      rw [List.getElem?_set_self hclose]
    case isFalse hne' => rw [List.getElem?_set_ne hne', List.getElem?_set_ne hne]

/-- Every entry of the table of some pairs is the partner in them. -/
lemma getElem?_foldl_pairUp {pairs : List (Nat × Nat)} {table : List (Option Nat)} {i : Nat}
    (hpairs : ∀ p ∈ pairs, PairAt ts p.1 p.2) (hlength : table.length = ts.length) :
    (pairs.foldl pairUp table)[i]? =
      match Delimiters.partnerIn? pairs i with
      | some j => some (some j)
      | none => table[i]? := by
  induction pairs generalizing table with
  | nil => rfl
  | cons p pairs ih =>
    obtain ⟨hp, hpairs⟩ := List.forall_mem_cons.1 hpairs
    rw [List.foldl_cons, ih hpairs (by rw [pairUp, List.length_set, List.length_set, hlength]),
      partnerIn?_cons, getElem?_pairUp hp hlength]
    -- a later pair does not change the entry, since each place has one partner
    cases hj : Delimiters.partnerIn? pairs i with
    | none =>
      dsimp only
      split
      case isTrue => rfl
      case isFalse => split <;> rfl
    | some j =>
      have hpair := pairAt_of_partnerIn? hpairs hj
      dsimp only
      by_cases hopen : p.1 = i
      · subst hopen
        rw [if_pos rfl]
        rcases hpair with hpair | hpair
        · rw [hpair.right_unique hp]
        · exact absurd hp hpair.not_after
      rw [if_neg hopen]
      by_cases hclose : p.2 = i
      · subst hclose
        rw [if_pos rfl]
        rcases hpair with hpair | hpair
        · exact absurd hpair hp.not_after
        · rw [hpair.left_unique hp]
      · rw [if_neg hclose]

/-- The table of partners is the one that is told from the pairs of delimiters. -/
lemma partnersAt_eq : partnersAt ts = certain (Delimiters.partners ts) := by
  have hread : partnersAt ts = certain ((Delimiters.pairsFrom 0 [] ts).map
      (·.foldl pairUp (List.replicate ts.length none))) := by
    have hstart : ts = [] ++ ts := rfl
    have hstack : ∀ p ∈ ([] : List (Nat × Token)), tokenAt? ts p.1 = some p.2 := nofun
    exact partnersFrom_eq hstart hstack List.length_replicate
  rw [hread, Delimiters.partners]
  cases hpairs : Delimiters.pairsFrom 0 [] ts with
  | error e => rfl
  | ok pairs =>
    have htable : pairs.foldl pairUp (List.replicate ts.length none) =
        (List.range ts.length).map (Delimiters.partnerIn? pairs) := by
      refine List.ext_getElem? fun i => ?_
      have hfound := pairs_of_pairsFrom hpairs
      rw [getElem?_foldl_pairUp hfound.pairAt List.length_replicate, List.getElem?_map]
      by_cases hi : i < ts.length
      · rw [List.getElem?_range hi, List.getElem?_replicate_of_lt hi, Option.map_some]
        cases Delimiters.partnerIn? pairs i <;> rfl
      · rw [List.getElem?_eq_none (by simpa using hi), List.getElem?_eq_none (by simpa using hi),
          Option.map_none]
        cases hj : Delimiters.partnerIn? pairs i with
        | none => rfl
        | some j =>
          obtain ⟨t, ht, -⟩ := (pairAt_of_partnerIn? hfound.pairAt hj).elim
            (·.isDelimiter.1) (·.isDelimiter.2)
          exact absurd (List.getElem?_eq_some_iff.1 ht).1 hi
    exact congrArg (fun table => certain (.ok table)) htable

end Partners

section TypeArguments

/-- The places of the brackets of a list of type arguments, read from place `j` on, where `depth`
lists are open and `brackets` are found; there are none if the list is not closed. -/
def bracketsFrom (j depth : Nat) (brackets : List Nat) : List Token → Option (List Nat)
  | [] => some []
  | t :: rest =>
    if !inTypeArguments t then some []
    else if t.is "<" then bracketsFrom (j + 1) (depth + 1) (brackets ++ [j]) rest
    else if t.is ">" then do
      let depth ← sub? depth 1
      if depth = 0 then some (brackets ++ [j])
      else bracketsFrom (j + 1) depth (brackets ++ [j]) rest
    else bracketsFrom (j + 1) depth brackets rest

/-- The table of brackets of type arguments, where those of the list that starts at place `i` are
marked too, if one does. -/
def markAt (ts : List Token) (marks : List Bool) (i : Nat) : Option (List Bool) := do
  let t ← tokenAt? ts i
  let marked ← marks[i]?
  if !t.is "<" || marked then some marks
  else
    let previous ← previous? (tokenAt? ts) i
    if !previous.any (·.kind == .identifier) then some marks
    else
      let brackets ← bracketsFrom i 0 [] (ts.drop i)
      brackets.foldlM (fun marks j => setAt? marks j true) marks

/-- For each token whether it is a bracket of a list of type arguments. -/
def genericBracketsAt (ts : List Token) : Option (List Bool) :=
  (List.range ts.length).foldlM (markAt ts) (List.replicate ts.length false)

/-- The marks of the angle brackets among the first tokens. -/
def marked : (inside : Nat) → List Token → List Bool
  | _, [] => []
  | 0, _ :: ts => false :: marked 0 ts
  | inside + 1, t :: ts => (t.is "<" || t.is ">") :: marked inside ts

/-- The places of the angle brackets among the first tokens, the first of which is at place `j`. -/
def anglesFrom : (j inside : Nat) → List Token → List Nat
  | _, _, [] => []
  | _, 0, _ :: _ => []
  | j, inside + 1, t :: ts =>
    if t.is "<" || t.is ">" then j :: anglesFrom (j + 1) inside ts
    else anglesFrom (j + 1) inside ts

variable {ts : List Token}

/-- No tokens hold no angle brackets. -/
lemma anglesFrom_zero {j} : anglesFrom j 0 ts = [] := by
  cases ts <;> rfl

/-- No tokens hold no marks. -/
lemma marked_zero : marked 0 ts = List.replicate ts.length false := by
  induction ts with
  | nil => rfl
  | cons t ts ih => rw [marked, ih]; rfl

/-- The brackets of a list are those of the tokens up to its end, if it is closed. -/
lemma bracketsFrom_eq {j depth brackets} :
    bracketsFrom j (depth + 1) brackets ts =
      some (match typeArgumentsEnd? depth ts with
        | some n => brackets ++ anglesFrom j n ts
        | none => []) := by
  induction ts generalizing j depth brackets with
  | nil => rfl
  | cons t ts ih =>
    rw [bracketsFrom, typeArgumentsEnd?.eq_def]
    dsimp only
    split
    case isTrue => rfl
    split
    case isTrue hless =>
      rw [ih]
      cases typeArgumentsEnd? (depth + 1) ts with
      | none => rfl
      | some n => simp [anglesFrom, hless]
    case isFalse hless =>
      split
      case isTrue hgreater =>
        have hsub : sub? (depth + 1) 1 = some depth := by simp [sub?]
        rw [hsub, Option.bind_eq_bind, Option.bind_some]
        cases depth with
        | zero => simp [anglesFrom, hgreater, anglesFrom_zero]
        | succ depth =>
          rw [if_neg (Nat.succ_ne_zero _), ih]
          dsimp only
          cases typeArgumentsEnd? depth ts with
          | none => rfl
          | some n => simp [anglesFrom, hgreater]
      case isFalse hgreater =>
        rw [ih]
        cases typeArgumentsEnd? depth ts with
        | none => rfl
        | some n => simp [anglesFrom, hless, hgreater]

/-- Setting the entry after some others changes that one. -/
lemma setAt?_append {α : Type} {done rest : List α} {x y : α} :
    setAt? (done ++ x :: rest) done.length y = some (done ++ y :: rest) := by
  rw [setAt?_of_lt (by simp), List.set_append_right _ _ (Nat.le_refl _), Nat.sub_self]
  rfl

/-- Marking the places of the angle brackets among the first tokens marks these. -/
lemma foldlM_anglesFrom (ts : List Token) (done : List Bool) (n : Nat) :
    (anglesFrom done.length n ts).foldlM (fun marks j => setAt? marks j true)
      (done ++ marked 0 ts) = some (done ++ marked n ts) := by
  induction ts generalizing done n with
  | nil => cases n <;> rfl
  | cons t ts ih =>
    have hnext : ∀ b n, (anglesFrom (done.length + 1) n ts).foldlM
        (fun marks j => setAt? marks j true) (done ++ b :: marked 0 ts) =
          some (done ++ b :: marked n ts) := fun b n => by
      have hdone := ih (done ++ [b]) n
      simpa using hdone
    cases n with
    | zero => rfl
    | succ n =>
      rw [anglesFrom, marked, marked]
      split
      case isTrue hangle =>
        rw [List.foldlM_cons, setAt?_append, Option.bind_eq_bind, Option.bind_some, hnext, hangle]
      case isFalse hangle =>
        rw [hnext, Bool.eq_false_iff.2 hangle]

/-- One step marks the brackets of the list that starts there. -/
lemma markAt_eq {before rest : List Token} {t : Token} {done : List Bool}
    (hts : ts = before ++ t :: rest) (hdone : done.length = before.length) (inside : Nat) :
    ∃ mark n, markAt ts (done ++ marked inside (t :: rest)) before.length =
        some (done ++ mark :: marked n rest) ∧
      genericBrackets before.getLast? inside (t :: rest) =
        mark :: genericBrackets (some t) n rest := by
  have ht : tokenAt? ts before.length = some t := by
    rw [hts]
    exact tokenAt?_append
  have hprevious : previous? (tokenAt? ts) before.length = some before.getLast? :=
    previous?_eq fun front x hx => by
      rw [hts, hx, List.append_assoc]
      exact tokenAt?_append
  have hmark : ∀ mark marks, (done ++ mark :: marks)[before.length]? = some mark := fun _ _ => by
    rw [← hdone, List.getElem?_append_right (Nat.le_refl _), Nat.sub_self]
    rfl
  rw [markAt, ht, Option.bind_eq_bind, Option.bind_some]
  cases inside with
  | succ inside =>
    -- a bracket inside of a list that has been read is marked, and starts no list
    refine ⟨_, inside, ?_, rfl⟩
    rw [marked, hmark, Option.bind_eq_bind, Option.bind_some, if_pos]
    cases t.is "<" <;> rfl
  | zero =>
    rw [marked, hmark, Option.bind_eq_bind, Option.bind_some]
    cases hless : t.is "<" with
    | false => exact ⟨false, 0, rfl, by simp [genericBrackets, hless]⟩
    | true =>
      have hrest : ts.drop before.length = t :: rest := by rw [hts, List.drop_left]
      have hin := inTypeArguments_of_angle (t := t) (by rw [hless]; rfl)
      have hbrackets : bracketsFrom before.length 0 [] (t :: rest) =
          bracketsFrom (before.length + 1) 1 [before.length] rest := by
        simp [bracketsFrom, hin, hless]
      rw [if_neg (by decide), hprevious, Option.bind_eq_bind, Option.bind_some]
      cases hnamed : before.getLast?.any (·.kind == .identifier) with
      | false => exact ⟨false, 0, rfl, by simp [genericBrackets, hless, hnamed]⟩
      | true =>
        rw [if_neg (by decide), hrest, hbrackets, bracketsFrom_eq, Option.bind_eq_bind,
          Option.bind_some]
        cases hend : typeArgumentsEnd? 0 rest with
        | none => exact ⟨false, 0, rfl, by simp [genericBrackets, hless, hnamed, hend]⟩
        | some n =>
          refine ⟨true, n, ?_, by simp [genericBrackets, hless, hnamed, hend]⟩
          have hmarked : (done ++ [true]).length = before.length + 1 := by simp [hdone]
          have hangles := foldlM_anglesFrom rest (done ++ [true]) n
          rw [hmarked, List.append_assoc, List.append_assoc] at hangles
          rw [List.foldlM_append, List.foldlM_cons, ← hdone, setAt?_append, hdone]
          exact hangles

/-- Marking list after list gives the marks that one pass over the tokens gives. -/
lemma foldlM_markAt {before rest : List Token} {done : List Bool} (hts : ts = before ++ rest)
    (hdone : done.length = before.length) (inside : Nat) :
    (List.range' before.length rest.length).foldlM (markAt ts) (done ++ marked inside rest) =
      some (done ++ genericBrackets before.getLast? inside rest) := by
  induction rest generalizing before done inside with
  | nil => rfl
  | cons t rest ih =>
    obtain ⟨mark, n, hmark, hbrackets⟩ := markAt_eq hts hdone inside
    have hnext : ts = before ++ [t] ++ rest := by rw [hts, ← List.append_cons]
    have hlength : (done ++ [mark]).length = (before ++ [t]).length := by simp [hdone]
    have hrest := ih hnext hlength n
    rw [List.length_append, List.length_singleton, List.getLast?_concat, List.append_assoc,
      List.append_assoc] at hrest
    rw [List.length_cons, List.range'_succ, List.foldlM_cons, hmark, Option.bind_eq_bind,
      Option.bind_some, hbrackets]
    exact hrest

/-- The table of brackets of type arguments is the one that is told from the tokens. -/
lemma genericBracketsAt_eq : genericBracketsAt ts = some (genericBrackets none 0 ts) := by
  have hall : ts = [] ++ ts := rfl
  have hnone : ([] : List Bool).length = ([] : List Token).length := rfl
  rw [genericBracketsAt, List.range_eq_range', ← marked_zero]
  exact foldlM_markAt hall hnone 0

end TypeArguments

section Roles

/-- The token at a place and its role. -/
def roledAt? (ts : List Token) (rs : List Role) (i : Nat) : Option (Token × Role) := do
  let t ← tokenAt? ts i
  let r ← rs[i]?
  some (t, r)

/-- How many conditionals wait for their `:` after a token. -/
def pendingAfter? (pending : Nat) : Role → Option Nat
  | .conditional => some (pending + 1)
  | .conditionalElse => sub? pending 1
  | _ => some pending

/-- The roles of tokens, where those before place `i` have the roles `done`, and `pending`
conditionals wait for their `:`. -/
def rolesFrom (ts : List Token) (marks : List Bool) (i pending : Nat) (done : List Role) :
    List Token → Option (List Role)
  | [] => some done
  | t :: rest => do
    let previous ← previous? (roledAt? ts done) i
    let generic ← marks[i]?
    let r := role generic t previous (tokenAt? ts (i + 1)) pending
    let pending ← pendingAfter? pending r
    rolesFrom ts marks (i + 1) pending (done ++ [r]) rest

/-- The roles of the tokens of a fragment. -/
def rolesAt (ts : List Token) : Option (List Role) := do
  let marks ← genericBracketsAt ts
  rolesFrom ts marks 0 0 [] ts

/-- The first infix operator that stands just after another one, among `count` tokens from place `i`
on. -/
def doubledFrom (ts : List Token) (rs : List Role) : (count i : Nat) → Option (Option Token)
  | 0, _ => some none
  | count + 1, i => do
    let p ← roledAt? ts rs (← sub? i 1)
    let c ← roledAt? ts rs i
    match doubledOperator? [p, c] with
    | some t => some (some t)
    | none => doubledFrom ts rs count (i + 1)

/-- The fault of a run of operands and operators. -/
def operandFaultAt (ts : List Token) : Option (Option Located) := do
  match ts.head?.filter (fun t => t.kind == .punctuator && infixOperators.contains t.text &&
      t.text != "::") with
  | some t => some (some (Fault.at (.operandBefore t.text) t))
  | none =>
    let rs ← rolesAt ts
    match ← doubledFrom ts rs (ts.length - 1) 1 with
    | some t => some (some (Fault.at (.unexpected t.text) t))
    | none =>
      let last ← previous? (roledAt? ts rs) ts.length
      some ((danglingOperator? last.toList).map fun t => Fault.at (.operandAfter t.text) t)

/-- The text of `count` tokens from place `i` on. -/
def joinFrom (ts : List Token) (rs : List Role) : (count i : Nat) → Option String
  | 0, _ => some ""
  | count + 1, i => do
    let previous ← previous? (roledAt? ts rs) i
    let t ← roledAt? ts rs i
    let text ← joinFrom ts rs count (i + 1)
    some ((if previous.any (spaceBetween · t) then " " else "") ++ t.1.text ++ text)

/-- The text of tokens. -/
def joinAt (ts : List Token) : Option String := do
  let rs ← rolesAt ts
  joinFrom ts rs ts.length 0

variable {ts : List Token}

/-- With no conditional that waits, a `:` stands alone. -/
lemma signRole_zero {t previous next} : signRole t previous next 0 ≠ .conditionalElse := by
  have hite : ∀ {c : Bool} {r r' : Role}, r ≠ .conditionalElse → r' ≠ .conditionalElse →
      (if c then r else r') ≠ .conditionalElse := fun {c} _ _ hr hr' => by
    cases c
    · exact hr'
    · exact hr
  rw [signRole, if_pos rfl]
  repeat' refine hite ?_ ?_
  all_goals decide

/-- Only a conditional that waits gets its `:`. -/
lemma pending_pos {generic t previous next pending}
    (h : role generic t previous next pending = .conditionalElse) : 0 < pending := by
  refine Nat.pos_of_ne_zero fun hzero => ?_
  subst hzero
  rw [role] at h
  split at h
  case isTrue => cases h
  split at h
  case isTrue => split at h <;> cases h
  case isFalse => exact signRole_zero h

/-- The conditionals that wait after a token are counted without underflow. -/
lemma pendingAfter?_eq {generic t previous next pending r} :
    role generic t previous next pending = r →
      pendingAfter? pending r =
        some (match r with
          | .conditional => pending + 1
          | .conditionalElse => pending - 1
          | _ => pending) := by
  intro h
  cases r with
  | conditionalElse => exact if_pos (pending_pos h)
  | _ => rfl

/-- A token and its role stand at one place of two tables. -/
lemma roledAt?_eq {rs : List Role} {i : Nat} {x : Token × Role} (ht : tokenAt? ts i = some x.1)
    (hr : rs[i]? = some x.2) : roledAt? ts rs i = some x := by
  rw [roledAt?, bind_of_eq_some ht, bind_of_eq_some hr]

/-- Roles are found one token after the other, with the last role found in the table. -/
lemma rolesFrom_eq {done : List (Token × Role)} {rest : List (Token × Bool)} {marks flags}
    (pending : Nat) (hts : ts = done.map Prod.fst ++ rest.map Prod.fst)
    (hmarks : marks = flags ++ rest.map Prod.snd) (hlength : flags.length = done.length) :
    rolesFrom ts marks done.length pending (done.map Prod.snd) (rest.map Prod.fst) =
      some ((done ++ assignRoles done.getLast? pending rest).map Prod.snd) := by
  induction rest generalizing done flags pending with
  | nil => rw [List.map_nil, rolesFrom, assignRoles, List.append_nil]
  | cons x rest ih =>
    obtain ⟨t, generic⟩ := x
    have hprevious : previous? (roledAt? ts (done.map Prod.snd)) done.length =
        some done.getLast? :=
      previous?_eq fun front x hx => roledAt?_eq (by simp [tokenAt?, hts, hx]) (by simp [hx])
    have hgeneric : marks[done.length]? = some generic := by simp [hmarks, ← hlength]
    have hnext : tokenAt? ts (done.length + 1) = rest.head?.map (·.1) := by
      simp [tokenAt?, hts, List.getElem?_append_right, List.head?_eq_getElem?]
    rw [List.map_cons, rolesFrom, bind_of_eq_some hprevious, bind_of_eq_some hgeneric, hnext,
      assignRoles]
    dsimp only
    rw [bind_of_eq_some (pendingAfter?_eq rfl)]
    generalize role generic t done.getLast? (rest.head?.map (·.1)) pending = r
    have hdone : ts = (done ++ [(t, r)]).map Prod.fst ++ rest.map Prod.fst := by simp [hts]
    have hflags : marks = flags ++ [generic] ++ rest.map Prod.snd := by simp [hmarks]
    have hlengths : (flags ++ [generic]).length = (done ++ [(t, r)]).length := by simp [hlength]
    have hrest := fun pending => ih pending hdone hflags hlengths
    simp only [List.length_append, List.length_singleton, List.map_append,
      List.getLast?_concat, List.append_assoc, List.map_cons, List.singleton_append] at hrest ⊢
    exact hrest _

/-- The table of roles holds the roles of all tokens, and no check fails. -/
lemma rolesAt_eq : rolesAt ts = some ((roles ts).map Prod.snd) := by
  have hts : ts = ([] : List (Token × Role)).map Prod.fst ++ (flagged ts).map Prod.fst :=
    map_fst_flagged.symm
  have hmarks : genericBrackets none 0 ts = [] ++ (flagged ts).map Prod.snd :=
    map_snd_flagged.symm
  have hroles : rolesFrom ts (genericBrackets none 0 ts) 0 0 [] ((flagged ts).map Prod.fst) =
      some ((roles ts).map Prod.snd) := rolesFrom_eq 0 hts hmarks rfl
  rw [map_fst_flagged] at hroles
  rw [rolesAt, bind_of_eq_some genericBracketsAt_eq, hroles]

/-- Every token has a role. -/
lemma length_roles : (roles ts).length = ts.length := by
  rw [← List.length_map Prod.fst, map_fst_roles]

section Fragments

variable {xs front rest : List (Token × Role)}

/-- What stands before a place of a fragment is the last of what stands before. -/
lemma previous?_roledAt? (hxs : xs = front ++ rest) :
    previous? (roledAt? (xs.map Prod.fst) (xs.map Prod.snd)) front.length = some front.getLast? :=
  previous?_eq fun before x hx => roledAt?_eq (by simp [tokenAt?, hxs, hx]) (by simp [hxs, hx])

/-- An operator stands twice at the start of a list or later in it. -/
lemma doubledOperator?_cons (p c : Token × Role) (xs : List (Token × Role)) :
    doubledOperator? (p :: c :: xs) =
      match doubledOperator? [p, c] with
      | some t => some t
      | none => doubledOperator? (c :: xs) := by
  rw [doubledOperator?, doubledOperator?]
  split <;> rfl

/-- Two operators in a row are found at the places of the tokens. -/
lemma doubledFrom_eq {p : Token × Role} (hxs : xs = front ++ p :: rest) :
    doubledFrom (xs.map Prod.fst) (xs.map Prod.snd) rest.length (front.length + 1) =
      some (doubledOperator? (p :: rest)) := by
  induction rest generalizing front p with
  | nil => rfl
  | cons c rest ih =>
    have hnext : xs = front ++ [p] ++ c :: rest := by rw [hxs, ← List.append_cons]
    have hp : roledAt? (xs.map Prod.fst) (xs.map Prod.snd) front.length = some p :=
      roledAt?_eq (by simp [tokenAt?, hxs]) (by simp [hxs])
    have hc : roledAt? (xs.map Prod.fst) (xs.map Prod.snd) (front.length + 1) = some c :=
      roledAt?_eq (by simp [tokenAt?, hxs]) (by simp [hxs])
    have hbefore : sub? (front.length + 1) 1 = some front.length := by simp [sub?]
    rw [List.length_cons, doubledFrom, bind_of_eq_some hbefore, bind_of_eq_some hp,
      bind_of_eq_some hc, doubledOperator?_cons p c rest]
    cases doubledOperator? [p, c] with
    | some t => rfl
    | none =>
      have hrest := ih hnext
      rw [List.length_append, List.length_singleton] at hrest
      exact hrest

/-- Looking for doubled operators from the second place on looks at all of them. -/
lemma doubledFrom_one :
    doubledFrom (xs.map Prod.fst) (xs.map Prod.snd) (xs.length - 1) 1 =
      some (doubledOperator? xs) := by
  cases hxs : xs with
  | nil => rfl
  | cons p rest =>
    have hsplit : xs = [] ++ p :: rest := hxs
    rw [← hxs]
    exact hsplit ▸ doubledFrom_eq hsplit

/-- Whether an operator lacks its last operand is seen from the last token. -/
lemma danglingOperator?_last : danglingOperator? xs.getLast?.toList = danglingOperator? xs := by
  rw [danglingOperator?, danglingOperator?]
  cases xs.getLast? <;> rfl

/-- The text that is joined from a place on is that of the tokens left, after the ones before. -/
lemma joinFrom_eq (hxs : xs = front ++ rest) :
    joinFrom (xs.map Prod.fst) (xs.map Prod.snd) rest.length front.length =
      some (match front.getLast? with
        | some p => joinAfter p rest
        | none => joinRoles rest) := by
  induction rest generalizing front with
  | nil => cases front.getLast? <;> rfl
  | cons t rest ih =>
    have hnext : xs = front ++ [t] ++ rest := by rw [hxs, ← List.append_cons]
    have ht : roledAt? (xs.map Prod.fst) (xs.map Prod.snd) front.length = some t :=
      roledAt?_eq (by simp [tokenAt?, hxs]) (by simp [hxs])
    have hrest := ih hnext
    rw [List.length_append, List.length_singleton, List.getLast?_concat] at hrest
    rw [List.length_cons, joinFrom, bind_of_eq_some (previous?_roledAt? hxs), bind_of_eq_some ht,
      bind_of_eq_some hrest]
    cases front.getLast? with
    | none => simp [joinRoles]
    | some p => simp [joinAfter]

end Fragments

/-- The fault of a run is found by the places of its tokens. -/
lemma operandFaultAt_eq : operandFaultAt ts = some (operandFault? ts) := by
  have hdoubled : doubledFrom ts ((roles ts).map Prod.snd) (ts.length - 1) 1 =
      some (doubledOperator? (roles ts)) := by
    rw [← length_roles, ← doubledFrom_one, map_fst_roles]
  have hall : roles ts = roles ts ++ [] := (List.append_nil _).symm
  have hlast := previous?_roledAt? hall
  rw [map_fst_roles, length_roles] at hlast
  rw [operandFaultAt, operandFault?]
  cases ts.head?.filter (fun t => t.kind == .punctuator && infixOperators.contains t.text &&
      t.text != "::") with
  | some t => rfl
  | none =>
    dsimp only
    rw [bind_of_eq_some rolesAt_eq, bind_of_eq_some hdoubled]
    cases doubledOperator? (roles ts) with
    | some t => rfl
    | none => rw [bind_of_eq_some hlast, danglingOperator?_last]

/-- The text of tokens is put together by their places. -/
lemma joinAt_eq : joinAt ts = some (joinTokens ts) := by
  have hall : roles ts = [] ++ roles ts := rfl
  have htext := joinFrom_eq hall
  rw [map_fst_roles, length_roles] at htext
  rw [joinAt, bind_of_eq_some rolesAt_eq]
  exact htext

end Roles

end SharpSmith.Positions
