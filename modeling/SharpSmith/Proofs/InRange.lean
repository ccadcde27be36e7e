import SharpSmith.Fragment.Name
import SharpSmith.Fragment.Source
import SharpSmith.Proofs.PositionScan

/-!
# Fragments stay in their texts

Statements, expressions, names and source files are read by positions, with every cut of the text,
every look-up and every difference checked. No check fails, what is read is the same, and each fault
is at a place in the text: between two of its characters, and not past its end.
-/

namespace SharpSmith.Positions

open Fragment

section Spans

variable {text : String}

/-- The end of a text is a place in it. -/
lemma within_finish : (⟨text.utf8ByteSize, 0⟩ : Span).Within text := by
  have h : text.toList = text.toList ++ ([] ++ []) := by simp
  exact Span.within_of_append h (Text.byteLength_toList text).symm rfl

/-- A text lies within itself. -/
lemma within_all : (⟨0, text.utf8ByteSize⟩ : Span).Within text := by
  have h : text.toList = [] ++ (text.toList ++ []) := by simp
  exact Span.within_of_append h rfl (Text.byteLength_toList text).symm

/-- All of a text from some place in it on lies within it. -/
lemma within_rest {s : Span} (h : s.Within text) :
    s.offset ≤ text.utf8ByteSize ∧
      (⟨s.offset, text.utf8ByteSize - s.offset⟩ : Span).Within text := by
  have hle : s.offset ≤ text.utf8ByteSize := Nat.le_trans (Nat.le_add_right _ _) h.finish_le
  have hfinish : s.offset + (text.utf8ByteSize - s.offset) = text.utf8ByteSize :=
    Nat.add_sub_cancel' hle
  refine ⟨hle, Nat.le_of_eq hfinish, h.offset, ?_⟩
  rw [Span.finish, hfinish]
  exact within_finish.offset

/-- The tokens of a text lie within it. -/
lemma within_of_tokenize {directives ts t} (h : tokenize directives text = .ok ts) (ht : t ∈ ts) :
    t.span.Within text := by
  obtain ⟨-, before, after, e, hoffset⟩ := (tiles_of_tokenize h).exists_slice ht
  have hlength := (Text.byteLength_toList t.text).symm
  exact Span.within_of_append e (hoffset.trans (Nat.zero_add _)) hlength

/-- The fault of a lexeme covers characters that are there. -/
lemma covers_of_tokensFrom {directives p skip cs e}
    (h : tokensFrom directives p skip cs = .error e) :
    Span.Covers p.offset (cs.drop skip) e.span := by
  induction cs generalizing p skip with
  | nil => cases h
  | cons c cs ih =>
    cases skip with
    | succ skip => exact ih h
    | zero =>
      rw [tokensFrom] at h
      have hsplit : ∀ extra, c :: cs = (c :: cs.take extra) ++ cs.drop extra := by simp
      split at h
      case h_1 stuck _ =>
        cases h
        exact ⟨[], (c :: cs).take stuck.covered, (c :: cs).drop stuck.covered,
          (List.take_append_drop _ _).symm, rfl, rfl⟩
      case h_2 extra _ =>
        rw [List.drop_zero, hsplit extra]
        exact .after _ (ih h)
      case h_3 extra _ =>
        dsimp only at h
        split at h
        case h_1 => cases h
        case h_2 e' he =>
          cases h
          rw [List.drop_zero, hsplit extra]
          exact .after _ (ih he)

/-- A fault in the tokens of a text lies within it. -/
lemma within_of_tokenize_error {directives e} (h : tokenize directives text = .error e) :
    e.span.Within text :=
  (covers_of_tokensFrom h).within

/-- The fault of delimiters is at one of them. -/
lemma exists_of_pairsFrom {index stack} {ts : List Token} {e}
    (h : Delimiters.pairsFrom index stack ts = .error e) :
    ∃ t ∈ stack.map Prod.snd ++ ts, e.span = t.span := by
  induction ts generalizing index stack with
  | nil =>
    cases stack with
    | nil => cases h
    | cons p stack =>
      cases h
      exact ⟨p.2, .head _, rfl⟩
  | cons t ts ih =>
    rw [Delimiters.pairsFrom] at h
    split at h
    case isTrue =>
      obtain ⟨u, hu, he⟩ := ih h
      rw [List.map_cons, List.cons_append, List.mem_cons, List.mem_append] at hu
      exact ⟨u, by simp only [List.mem_append, List.mem_cons]; tauto, he⟩
    case isFalse =>
      split at h
      case h_1 =>
        obtain ⟨u, hu, he⟩ := ih h
        rw [List.mem_append] at hu
        exact ⟨u, by simp only [List.mem_append, List.mem_cons]; tauto, he⟩
      case h_2 =>
        have ht : ∀ stack : List (Nat × Token), t ∈ stack.map Prod.snd ++ t :: ts := by simp
        split at h
        case h_1 =>
          cases h
          exact ⟨t, ht [], rfl⟩
        case h_2 p opener stack =>
          split at h
          case isFalse =>
            cases h
            exact ⟨t, ht _, rfl⟩
          case isTrue =>
            split at h
            case h_1 => cases h
            case h_2 he =>
              cases h
              obtain ⟨u, hu, he⟩ := ih he
              rw [List.mem_append] at hu
              exact ⟨u, by simp only [List.map_cons, List.mem_append, List.mem_cons]; tauto, he⟩

/-- A delimiter that is at fault lies within the text. -/
lemma within_of_partners_error {directives ts e} (h : tokenize directives text = .ok ts)
    (he : Delimiters.partners ts = .error e) : e.span.Within text := by
  rw [Delimiters.partners] at he
  cases hpairs : Delimiters.pairsFrom 0 [] ts with
  | ok pairs =>
    rw [hpairs] at he
    cases he
  | error e' =>
    rw [hpairs] at he
    cases he
    obtain ⟨t, ht, hspan⟩ := exists_of_pairsFrom hpairs
    rw [hspan]
    exact within_of_tokenize h ht

end Spans

section Nesting

open Source

/-- All tokens that a nesting holds are at places that `P` allows. -/
def Holds (P : Span → Prop) (n : Nesting) : Prop :=
  (∀ t ∈ n.regions, P t.span) ∧ ∀ t ∈ n.conditions, P t.span

variable {P : Span → Prop} {n : Nesting}

/-- A nesting whose tokens are at places that `P` allows, or a fault at such a place. -/
def Allowed (P : Span → Prop) : Except Located Nesting → Prop
  | .ok n => Holds P n
  | .error e => P e.span

/-- A directive opens a region or a condition, or shows a fault, at its own place. -/
lemma allowed_step {t : Token} (name : String) (hn : Holds P n) (ht : P t.span) :
    Allowed P (n.step t name) := by
  unfold Nesting.step
  split
  case isTrue => exact ht
  split
  case isTrue => exact ⟨List.forall_mem_cons.2 ⟨ht, hn.1⟩, hn.2⟩
  split
  case isTrue =>
    split
    case h_1 => exact ht
    case h_2 hregions =>
      have hrest := hn.1
      rw [hregions, List.forall_mem_cons] at hrest
      exact ⟨hrest.2, hn.2⟩
  split
  case isTrue => exact ⟨hn.1, List.forall_mem_cons.2 ⟨ht, hn.2⟩⟩
  split
  case isTrue =>
    split
    case isTrue => exact ht
    case isFalse => exact hn
  split
  case isTrue =>
    split
    case h_1 => exact ht
    case h_2 hconditions =>
      have hrest := hn.2
      rw [hconditions, List.forall_mem_cons] at hrest
      exact ⟨hn.1, hrest.2⟩
  case isFalse => exact hn

/-- Faults of directives are at one of them. -/
lemma allowed_run {ts : List Token} (hn : Holds P n) (hts : ∀ t ∈ ts, P t.span) :
    Allowed P (n.run ts) := by
  induction ts generalizing n with
  | nil => exact hn
  | cons t ts ih =>
    obtain ⟨ht, hts⟩ := List.forall_mem_cons.1 hts
    rw [Nesting.run]
    split
    case isTrue =>
      have hstep := allowed_step (directiveName t.text) hn ht
      split
      case h_1 n' e =>
        rw [e] at hstep
        exact ih hstep hts
      case h_2 e' e =>
        rw [e] at hstep
        exact hstep
    case isFalse => exact ih hn hts

/-- A nesting that is left open is at fault at a token that it holds. -/
lemma within_of_fault? {e} (hn : Holds P n) (h : n.fault? = some e) : P e.span := by
  rw [Nesting.fault?] at h
  split at h
  case h_1 hr =>
    cases h
    exact hn.1 _ (by simp [hr])
  case h_2 hc =>
    cases h
    exact hn.2 _ (by simp [hc])
  case h_3 => cases h

end Nesting

section Readings

/-- The tokens of a fragment without directives and the table of their partners. -/
def balancedAt (text : String) : Checked (List Token × List (Option Nat)) := do
  let ts ← tokenizeAt false text
  let table ← partnersAt ts
  return (ts, table)

/-- The tokens of the one statement that tokens hold, in a text of `size` bytes. -/
def onlyAt (size : Nat) (ts : List Token) (table : List (Option Nat)) : Checked (List Token) :=
  if ts.isEmpty then throw ⟨.missingStatement, ⟨0, size⟩⟩
  else do
    let finish ← statementEnd size ts table (ts.length + 1) 0
    let used ← tokensBetween? ts 0 finish
    if finish < ts.length then
      let extra ← tokenAt? ts finish
      let last ← tokenAt? ts (← sub? finish 1)
      if finish + 1 == ts.length && extra.is ";" && last.is "\x7d" then return used
      else
        let left ← sub? size extra.offset
        throw ⟨.severalStatements, ⟨extra.offset, left⟩⟩
    else return used

/-- A text as one statement. -/
def statementAt (text : String) : Checked Statement := do
  let (ts, table) ← balancedAt text
  let used ← onlyAt text.utf8ByteSize ts table
  let joined ← joinAt used
  return ⟨Statement.kindOf used, joined⟩

/-- A text as an expression. -/
def expressionAt (text : String) : Checked Expression := do
  let (ts, table) ← balancedAt text
  if ts.isEmpty then throw ⟨.missingExpression, ⟨0, text.utf8ByteSize⟩⟩
  else
    match ← topSemicolonFrom table 0 0 ts with
    | some t => throw (Fault.at .statementEnd t)
    | none =>
      match ← operandFaultAt ts with
      | some e => throw e
      | none =>
        let joined ← joinAt ts
        return ⟨joined⟩

/-- The identifiers of a name, where the token at an even place has to be one and the token at an
odd place a dot. -/
def segmentsAt (i : Nat) : List Token → Except Located (List String)
  | [] => .ok []
  | t :: ts =>
    if i % 2 = 0 then
      if t.kind != .identifier then .error (Fault.at .expectedIdentifier t)
      else (segmentsAt (i + 1) ts).map (t.text :: ·)
    else if t.is "." then segmentsAt (i + 1) ts
    else .error (Fault.at (.expected ".") t)

/-- A text as a name. -/
def nameAt (text : String) : Checked Name := do
  let ts ← tokenizeAt false text
  if ts.isEmpty then throw ⟨.missingName, ⟨0, text.utf8ByteSize⟩⟩
  else
    let segments ← certain (segmentsAt 0 ts)
    if ts.length % 2 = 0 then
      let last ← tokenAt? ts (← sub? ts.length 1)
      throw (Fault.at .expectedIdentifierAfterDot last)
    else return ⟨segments⟩

/-- A text as a source file. -/
def sourceAt (text : String) : Checked Unit := do
  let ts ← tokenizeAt true text
  let _ ← partnersAt ts
  let nesting ← certain (Source.Nesting.run ⟨[], []⟩ ts)
  match nesting.fault? with
  | some e => throw e
  | none => return ()

variable {text : String}

/-- Reading tokens by positions finds the tokens of the text, and no check fails. -/
lemma agree_tokenizeAt (directives : Bool) :
    Agree (·.Within text) (fun ts us => ts = us ∧ tokenize directives text = .ok us)
      (tokenizeAt directives text) (tokenize directives text) := by
  rw [tokenizeAt_eq]
  cases h : tokenize directives text with
  | error e => exact .error (within_of_tokenize_error h)
  | ok ts => exact .ok ⟨rfl, rfl⟩

/-- Reading balanced tokens by positions finds them with the table of their partners. -/
lemma agree_balancedAt :
    Agree (·.Within text)
      (fun found ts => found.1 = ts ∧ At ts 0 ts ∧
        Scanned (·.Within text) text.utf8ByteSize ts found.2)
      (balancedAt text) (balancedTokens text) := by
  rw [balancedAt, balancedTokens]
  refine (agree_tokenizeAt false).bind ?_
  rintro ts _ ⟨rfl, h⟩
  rw [partnersAt_eq]
  cases hp : Delimiters.partners ts with
  | error e => exact .error (within_of_partners_error h hp)
  | ok table =>
    refine .ok ⟨rfl, ⟨Nat.zero_le _, rfl, exists_partners_iff.1 ⟨table, hp⟩⟩, hp, within_finish, ?_⟩
    exact fun t ht => within_of_tokenize h ht

/-- Scanning for one statement by positions finds the one of the tokens. -/
lemma agree_onlyAt {ts table} (h : At ts 0 ts)
    (hs : Scanned (·.Within text) text.utf8ByteSize ts table) :
    Agree (·.Within text) Eq (onlyAt text.utf8ByteSize ts table)
      (Statement.only text.utf8ByteSize ts) := by
  rw [onlyAt, Statement.only]
  split
  case isTrue => exact .error within_all
  case isFalse =>
    refine (agree_statementEnd hs h (Nat.lt_succ_self _) (Nat.le_refl _)).bind fun i us hi => ?_
    have hlength := hi.length
    have hstart := hi.not_before
    have hused : tokensBetween? ts 0 i = some (ts.take (ts.length - us.length)) := by
      rw [tokensBetween?, if_pos ⟨Nat.zero_le _, hi.le⟩, List.drop_zero, Nat.sub_zero, ← hlength,
        Nat.add_sub_cancel]
    rw [lift_bind hused]
    cases us with
    | nil =>
      rw [if_neg (by simp at hlength; omega)]
      exact .ok rfl
    | cons extra more =>
      have hextra : tokenAt? ts i = some extra := hi.head?
      have hbefore : sub? i 1 = some (i - 1) := if_pos (by omega)
      have hspan := hs.token extra (hi.mem (.head _))
      obtain ⟨hle, hrest⟩ := within_rest hspan
      have hleft : sub? text.utf8ByteSize extra.offset = some (text.utf8ByteSize - extra.offset) :=
        if_pos hle
      have hlast : ∃ last, tokenAt? ts (i - 1) = some last ∧
          (ts.take (ts.length - (extra :: more).length)).getLast? = some last := by
        have hplace : ts.length - (extra :: more).length = i := by omega
        have hi' : i - 1 < ts.length := by
          simp only [List.length_cons] at hlength
          omega
        refine ⟨ts[i - 1], List.getElem?_eq_getElem hi', ?_⟩
        rw [hplace, List.getLast?_take, if_neg (by omega), List.getElem?_eq_getElem hi']
        rfl
      have hend : (i + 1 == ts.length) = more.isEmpty := by
        rw [← hlength]
        cases more <;> simp
      obtain ⟨last, hlast, hused⟩ := hlast
      rw [if_pos (by simp at hlength; omega), lift_bind hextra, lift_bind hbefore, lift_bind hlast]
      dsimp only
      rw [hused, Option.any_some, hend]
      split
      case isTrue => exact .ok rfl
      case isFalse =>
        rw [lift_bind hleft]
        exact .error hrest

/-- What `Statement.parse` reads, before its fault is reported. -/
lemma agree_statementAt :
    Agree (·.Within text) Eq (statementAt text)
      (balancedTokens text >>= Statement.only text.utf8ByteSize >>= fun used =>
        .ok ⟨Statement.kindOf used, joinTokens used⟩) := by
  rw [statementAt, bind_assoc]
  refine agree_balancedAt.bind ?_
  rintro ⟨_, table⟩ ts ⟨rfl, h, hs⟩
  refine (agree_onlyAt h hs).bind ?_
  rintro used _ rfl
  rw [lift_bind joinAt_eq]
  exact .ok rfl

/-- Reading an expression by positions finds the one of the tokens. -/
lemma agree_expressionAt :
    Agree (·.Within text) Eq (expressionAt text)
      (balancedTokens text >>= fun ts =>
        match Expression.fault? text.utf8ByteSize ts with
        | some e => .error e
        | none => .ok ⟨joinTokens ts⟩) := by
  rw [expressionAt]
  refine agree_balancedAt.bind ?_
  rintro ⟨ts, table⟩ _ ⟨rfl, h, hs⟩
  dsimp only at h hs ⊢
  rw [Expression.fault?]
  split
  case isTrue => exact .error within_all
  case isFalse =>
    rw [lift_bind (topSemicolonFrom_eq hs h)]
    cases hcut : cutAtSemicolon? 0 ts with
    | some cut =>
      obtain ⟨before, semicolon, after⟩ := cut
      obtain ⟨hsplit, -⟩ := Statement.run_of_cutAtSemicolon? h.balanced hcut
      refine .error (hs.token semicolon ?_)
      rw [hsplit]
      exact List.mem_append_right _ (.head _)
    | none =>
      dsimp only [Option.map_none]
      rw [lift_bind operandFaultAt_eq]
      cases hfault : operandFault? ts with
      | some e =>
        obtain ⟨t, ht, he⟩ := exists_of_operandFault? hfault
        refine .error ?_
        rw [he]
        exact hs.token t ht
      | none =>
        dsimp only
        rw [lift_bind joinAt_eq]
        exact .ok rfl

/-- What is found of a name when its tokens are over: a dot at its end is a fault. -/
def atNameEnd (i : Nat) (dot : Option Token) (ts : List Token)
    (found : Except Located (List String)) : Except Located (List String) :=
  found >>= fun segments =>
    if (i + ts.length) % 2 = 0 then
      match ts.getLast?.or dot with
      | some dot => .error (Fault.at .expectedIdentifierAfterDot dot)
      | none => .ok []
    else .ok segments

/-- Only the last of several tokens tells how a name ends. -/
lemma atNameEnd_cons {i : Nat} {dot : Option Token} {t : Token} {ts : List Token} {found} :
    atNameEnd i dot (t :: ts) found = atNameEnd (i + 1) (some t) ts found := by
  have hlast : (t :: ts).getLast?.or dot = ts.getLast?.or (some t) := by
    rw [List.getLast?_cons]
    cases ts.getLast? <;> rfl
  rw [atNameEnd, atNameEnd, hlast, List.length_cons, Nat.add_right_comm, Nat.add_assoc]

/-- How a name ends does not depend on the parts before. -/
lemma atNameEnd_map {i : Nat} {dot : Token} {ts : List Token} {found} {segment : String} :
    atNameEnd i (some dot) ts (found.map (segment :: ·)) =
      (atNameEnd i (some dot) ts found).map (segment :: ·) := by
  have hlast : ∃ last, ts.getLast?.or (some dot) = some last := by
    cases ts.getLast? <;> exact ⟨_, rfl⟩
  obtain ⟨last, hlast⟩ := hlast
  simp only [atNameEnd, hlast]
  cases found with
  | error e => rfl
  | ok segments =>
    simp only [Except.map, ok_bind]
    split <;> rfl

/-- Identifiers and dots alternate. -/
lemma segments_eq (ts : List Token) (i : Nat) :
    (i % 2 = 0 → ∀ dot, Name.segmentsFrom dot ts = atNameEnd i dot ts (segmentsAt i ts)) ∧
      (i % 2 = 1 → ∀ dot, Name.dotFrom ts = atNameEnd i dot ts (segmentsAt i ts)) := by
  induction ts generalizing i with
  | nil =>
    constructor
    · intro hi dot
      cases dot <;> simp [Name.segmentsFrom, atNameEnd, segmentsAt, hi, ok_bind]
    · intro hi dot
      simp [Name.dotFrom, atNameEnd, segmentsAt, hi, ok_bind]
  | cons t ts ih =>
    obtain ⟨heven, hodd⟩ := ih (i + 1)
    constructor
    · intro hi dot
      rw [Name.segmentsFrom, segmentsAt, if_pos hi, atNameEnd_cons]
      split
      case isTrue => rfl
      case isFalse =>
        rw [atNameEnd_map, ← hodd (by omega)]
        cases Name.dotFrom ts <;> rfl
    · intro hi dot
      have hne : ¬i % 2 = 0 := by omega
      rw [Name.dotFrom, segmentsAt, if_neg hne, atNameEnd_cons]
      split
      case isTrue => exact heven (by omega) (some t)
      case isFalse => rfl

/-- A fault in a name is at one of its tokens. -/
lemma exists_of_segmentsAt {i : Nat} {ts : List Token} {e} (h : segmentsAt i ts = .error e) :
    ∃ t ∈ ts, e.span = t.span := by
  induction ts generalizing i with
  | nil => cases h
  | cons t ts ih =>
    have hrest : ∀ {j}, segmentsAt j ts = .error e → ∃ u ∈ t :: ts, e.span = u.span := fun h => by
      obtain ⟨u, hu, he⟩ := ih h
      exact ⟨u, .tail _ hu, he⟩
    rw [segmentsAt] at h
    split at h
    case isTrue =>
      split at h
      case isTrue =>
        cases h
        exact ⟨t, .head _, rfl⟩
      case isFalse =>
        cases hs : segmentsAt (i + 1) ts with
        | ok segments =>
          rw [hs] at h
          cases h
        | error e' =>
          rw [hs] at h
          cases h
          exact hrest hs
    case isFalse =>
      split at h
      case isTrue => exact hrest h
      case isFalse =>
        cases h
        exact ⟨t, .head _, rfl⟩

/-- Reading a name by positions finds the one of the tokens. -/
lemma agree_nameAt :
    Agree (·.Within text) Eq (nameAt text)
      (tokenize false text >>= Name.ofTokens text.utf8ByteSize) := by
  rw [nameAt]
  refine (agree_tokenizeAt false).bind ?_
  rintro ts _ ⟨rfl, h⟩
  rw [Name.ofTokens]
  split
  case isTrue => exact .error within_all
  case isFalse hne =>
    rw [(segments_eq ts 0).1 rfl none, atNameEnd, Option.or_none]
    cases hs : segmentsAt 0 ts with
    | error e =>
      obtain ⟨t, ht, he⟩ := exists_of_segmentsAt hs
      refine .error ?_
      rw [he]
      exact within_of_tokenize h ht
    | ok segments =>
      have hpos : 1 ≤ ts.length := List.length_pos_iff.2 (by simpa using hne)
      have hbefore : sub? ts.length 1 = some (ts.length - 1) := if_pos hpos
      have hplace : ts.length - 1 < ts.length := by omega
      have hlast : tokenAt? ts (ts.length - 1) = some ts[ts.length - 1] :=
        List.getElem?_eq_getElem hplace
      rw [ok_certain_bind, Nat.zero_add, List.getLast?_eq_getElem?, List.getElem?_eq_getElem hplace,
        ok_bind]
      split
      case isTrue =>
        rw [lift_bind hbefore, lift_bind hlast]
        exact .error (within_of_tokenize h (List.getElem_mem hplace))
      case isFalse => exact .ok rfl

/-- Checking a source file by positions finds what the tokens tell. -/
lemma agree_sourceAt :
    Agree (·.Within text) Eq (sourceAt text) (Source.check text) := by
  rw [sourceAt, Source.check]
  refine (agree_tokenizeAt true).bind ?_
  rintro ts _ ⟨rfl, h⟩
  have hts : ∀ t ∈ ts, t.span.Within text := fun t ht => within_of_tokenize h ht
  rw [partnersAt_eq]
  cases hp : Delimiters.partners ts with
  | error e => exact .error (within_of_partners_error h hp)
  | ok table =>
    have hnone : Holds (·.Within text) ⟨[], []⟩ :=
      ⟨List.forall_mem_nil _, List.forall_mem_nil _⟩
    have hrun := allowed_run hnone hts
    cases hn : Source.Nesting.run ⟨[], []⟩ ts with
    | error e =>
      rw [hn] at hrun
      exact .error hrun
    | ok nesting =>
      rw [hn] at hrun
      have hholds : Holds (·.Within text) nesting := hrun
      rw [ok_certain_bind, ok_certain_bind, ok_bind, ok_bind]
      cases hf : nesting.fault? with
      | some e =>
        have hspan : e.span.Within text := within_of_fault? hholds hf
        exact .error hspan
      | none => exact .ok rfl

end Readings

/-- A checked reading as what it tells of a text: nothing if a check fails. -/
def reported {α : Type} (fragment : FragmentKind) (x : Checked α) : Option (Except SyntaxError α) :=
  x.run.map (·.mapError (.ofLocated fragment))

/-- A reading stays in the range of a text: with all checks it tells what `y` says, and a fault that
`y` tells of lies within the text. -/
structure InRange {α : Type} (text : String) (x : Option (Except SyntaxError α))
    (y : Except SyntaxError α) : Prop where
  read : x = some y
  within : ∀ e, y = .error e → e.span.Within text

/-- A reading that agrees with another one stays in the range of the text. -/
lemma Agree.inRange {α : Type} {text : String} {fragment : FragmentKind} {x : Checked α}
    {found : Except Located α} {y : Except SyntaxError α} (h : Agree (·.Within text) Eq x found)
    (hy : y = found.mapError (.ofLocated fragment)) : InRange text (reported fragment x) y := by
  subst hy
  cases h with
  | error he =>
    refine ⟨rfl, fun e h => ?_⟩
    cases h
    exact he
  | ok h =>
    subst h
    exact ⟨rfl, nofun⟩

/-- Reading a statement, an expression, a name or a source file by positions never cuts a text out
of its range or inside of a character, never looks up a token that is not there and never counts
below zero. It reads what is read, and finds faults within the text only. -/
theorem fragments_in_range (text : String) :
    InRange text (reported .statement (statementAt text)) (Statement.parse text) ∧
      InRange text (reported .expression (expressionAt text)) (Expression.parse text) ∧
      InRange text (reported .name (nameAt text)) (Name.parse text) ∧
      InRange text (reported .source (sourceAt text)) (Source.verify text) := by
  refine ⟨agree_statementAt.inRange ?_, agree_expressionAt.inRange ?_, agree_nameAt.inRange ?_,
    agree_sourceAt.inRange ?_⟩
  · rw [Statement.parse]
    cases balancedTokens text >>= Statement.only text.utf8ByteSize <;> rfl
  · rw [Expression.parse]
    cases balancedTokens text with
    | error e => rfl
    | ok ts =>
      dsimp only
      rw [ok_bind]
      cases Expression.fault? text.utf8ByteSize ts <;> rfl
  · rw [Name.parse]
    cases tokenize false text >>= Name.ofTokens text.utf8ByteSize <;> rfl
  · rw [Source.verify]
    cases Source.check text <;> rfl

/-- The faults of texts that stop in the middle of something, after characters of more than one
byte. -/
theorem fragments_in_range_cut :
    (∃ e, Statement.parse "é = f(\"é\", ü" = .error e ∧ e.span = ⟨6, 1⟩ ∧
      e.span.Within "é = f(\"é\", ü") ∧
    (∃ e, Expression.parse "é + \"ü" = .error e ∧ e.span = ⟨5, 3⟩ ∧ e.span.Within "é + \"ü") ∧
    (∃ e, Name.parse "Größe." = .error e ∧ e.span = ⟨7, 1⟩ ∧ e.span.Within "Größe.") ∧
    ∃ e, Source.verify "#region é\n" = .error e ∧ e.span = ⟨0, 10⟩ ∧
      e.span.Within "#region é\n" := by
  refine ⟨?_, ?_, ?_, ?_⟩
  · have hread : Statement.parse "é = f(\"é\", ü" = .error ⟨.statement, .unclosed "(", ⟨6, 1⟩⟩ := by
      decide +kernel
    exact ⟨_, hread, rfl, (fragments_in_range _).1.within _ hread⟩
  · have hread : Expression.parse "é + \"ü" =
        .error ⟨.expression, .unterminatedString, ⟨5, 3⟩⟩ := by decide +kernel
    exact ⟨_, hread, rfl, (fragments_in_range _).2.1.within _ hread⟩
  · have hread : Name.parse "Größe." = .error ⟨.name, .expectedIdentifierAfterDot, ⟨7, 1⟩⟩ := by
      decide +kernel
    exact ⟨_, hread, rfl, (fragments_in_range _).2.2.1.within _ hread⟩
  · have hread : Source.verify "#region é\n" =
        .error ⟨.source, .neverClosed "region", ⟨0, 10⟩⟩ := by decide +kernel
    exact ⟨_, hread, rfl, (fragments_in_range _).2.2.2.within _ hread⟩

end SharpSmith.Positions
