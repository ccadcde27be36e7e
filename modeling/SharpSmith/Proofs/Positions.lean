import SharpSmith.Proofs.Places

/-!
# Reading a text by positions

Tokens are read once more, now by byte offsets: characters are looked at where they stand in the
whole text, and a token is cut out of it between two offsets. Every cut and every difference of
offsets is checked. No check ever fails, and the tokens are the same (`tokensAt_eq`).
-/

namespace SharpSmith

namespace Text

/-- Dropping the bytes of the first character drops that character. -/
lemma dropBytes?_cons {c : Char} {cs n} :
    dropBytes? (c.utf8Size + n) (c :: cs) = dropBytes? n cs := by
  obtain ⟨k, hk⟩ := Nat.exists_eq_succ_of_ne_zero (Nat.pos_iff_ne_zero.1 c.utf8Size_pos)
  rw [hk, Nat.succ_add, dropBytes?, hk, if_pos (by omega)]
  congr 1
  omega

/-- Taking the bytes of the first character takes that character. -/
lemma takeBytes?_cons {c : Char} {cs n} :
    takeBytes? (c.utf8Size + n) (c :: cs) = (takeBytes? n cs).map (c :: ·) := by
  obtain ⟨k, hk⟩ := Nat.exists_eq_succ_of_ne_zero (Nat.pos_iff_ne_zero.1 c.utf8Size_pos)
  rw [hk, Nat.succ_add, takeBytes?, hk, if_pos (by omega)]
  congr 2
  omega

/-- Nothing is dropped of a text when no bytes are. -/
lemma dropBytes?_zero {cs : List Char} : dropBytes? 0 cs = some cs := by
  rw [dropBytes?]

/-- The bytes of the first part of a text are cut off. -/
lemma dropBytes?_append {before after : List Char} :
    dropBytes? (byteLength before) (before ++ after) = some after := by
  induction before with
  | nil => exact dropBytes?_zero
  | cons c before ih => rw [byteLength, List.cons_append, dropBytes?_cons, ih]

/-- The bytes of the first part of a text are that part. -/
lemma takeBytes?_append {part after : List Char} :
    takeBytes? (byteLength part) (part ++ after) = some part := by
  induction part with
  | nil => rw [byteLength, takeBytes?]
  | cons c part ih => rw [byteLength, List.cons_append, takeBytes?_cons, ih]; rfl

/-- Bytes that can be cut off are those of a first part. -/
lemma exists_of_dropBytes? {n : Nat} {cs ds : List Char} (h : dropBytes? n cs = some ds) :
    ∃ before, cs = before ++ ds ∧ n = byteLength before := by
  induction cs generalizing n with
  | nil =>
    cases n with
    | zero =>
      cases h
      exact ⟨[], rfl, rfl⟩
    | succ n => cases h
  | cons c cs ih =>
    cases n with
    | zero =>
      cases h
      exact ⟨[], rfl, rfl⟩
    | succ n =>
      rw [dropBytes?] at h
      split at h
      case isFalse => cases h
      case isTrue hc =>
        obtain ⟨before, rfl, hn⟩ := ih h
        refine ⟨c :: before, rfl, ?_⟩
        rw [byteLength, ← hn]
        omega

/-- What stands further on in a text. -/
lemma dropBytes?_after {text w r : List Char} {pos} (h : dropBytes? pos text = some (w ++ r)) :
    dropBytes? (pos + byteLength w) text = some r := by
  obtain ⟨before, rfl, rfl⟩ := exists_of_dropBytes? h
  rw [← List.append_assoc, ← byteLength_append]
  exact dropBytes?_append

/-- The position after a character is a boundary too, and the text goes on there. -/
lemma dropBytes?_next {text cs : List Char} {c pos} (h : dropBytes? pos text = some (c :: cs)) :
    dropBytes? (pos + c.utf8Size) text = some cs :=
  dropBytes?_after (w := [c]) h

/-- What is left of a text is no longer than the text. -/
lemma length_le_of_dropBytes? {text cs : List Char} {pos} (h : dropBytes? pos text = some cs) :
    cs.length ≤ text.length := by
  obtain ⟨before, rfl, -⟩ := exists_of_dropBytes? h
  simp

end Text

namespace Positions

open Fragment

/-- A difference that is not below zero. -/
def sub? (a b : Nat) : Option Nat :=
  if b ≤ a then some (a - b) else none

/-- Subtracting a part of a sum does not underflow. -/
@[simp] lemma sub?_add_right {a b : Nat} : sub? (a + b) a = some b := by
  simp [sub?]

/-- The part of a text between two offsets. -/
def slice? (text : List Char) (start finish : Nat) : Option (List Char) := do
  let n ← sub? finish start
  let cs ← Text.dropBytes? start text
  Text.takeBytes? n cs

/-- A stretch that starts at a boundary and ends at one can be sliced. -/
lemma slice?_of_append {text w r : List Char} {pos}
    (h : Text.dropBytes? pos text = some (w ++ r)) :
    slice? text pos (pos + Text.byteLength w) = some w := by
  simp [slice?, h, Text.takeBytes?_append]

/-- The character `n` places after an offset, if the text goes as far. -/
def charAt? (text : List Char) (pos n : Nat) : Option (Option Char) :=
  (Text.dropBytes? pos text).map (·[n]?)

/-- The character at an offset and the offset just after it, if the text goes as far. -/
def bump? (text : List Char) (pos : Nat) : Option (Option (Char × Nat)) :=
  (charAt? text pos 0).map fun c => c.map fun c => (c, pos + c.utf8Size)

/-- The offset after all characters of a class. -/
def skipWhile (text : List Char) (p : Char → Bool) : (budget pos : Nat) → Option Nat
  | 0, _ => none
  | budget + 1, pos => do
    match ← bump? text pos with
    | some (c, next) => if p c then skipWhile text p budget next else some pos
    | none => some pos

/-- The offset after a string, read from just after its opening quote, and whether it is closed. -/
def stringEnd (text : List Char) : (budget pos : Nat) → Option (Nat × Bool)
  | 0, _ => none
  | budget + 1, pos => do
    match ← bump? text pos with
    | none => some (pos, false)
    | some (c, next) =>
      if c = '\\' then
        match ← bump? text next with
        | some (_, next) => stringEnd text budget next
        | none => stringEnd text budget next
      else if c = '"' then some (next, true)
      else if c = '\n' then some (next, false)
      else stringEnd text budget next

/-- The offset after a verbatim string, read from just after its opening quote, and whether it is
closed. -/
def verbatimEnd (text : List Char) : (budget pos : Nat) → Option (Nat × Bool)
  | 0, _ => none
  | budget + 1, pos => do
    match ← bump? text pos with
    | none => some (pos, false)
    | some (c, next) =>
      if c = '"' then
        match ← bump? text next with
        | some (d, later) =>
          if d = '"' then verbatimEnd text budget later else some (next, true)
        | none => some (next, true)
      else verbatimEnd text budget next

/-- The offset after a character literal, read from where `count` characters of it stand before,
and whether it is closed after at least one. -/
def characterEnd (text : List Char) (count : Nat) : (budget pos : Nat) → Option (Nat × Bool)
  | 0, _ => none
  | budget + 1, pos => do
    match ← bump? text pos with
    | none => some (pos, false)
    | some (c, next) =>
      if c = '\\' then
        match ← bump? text next with
        | some (_, next) => characterEnd text (count + 1) budget next
        | none => characterEnd text (count + 1) budget next
      else if c = '\'' then some (next, decide (0 < count))
      else if c = '\n' then some (next, false)
      else characterEnd text (count + 1) budget next

/-- The offset after a number. -/
def numberEnd (text : List Char) (hex : Bool) (previous : Char) : (budget pos : Nat) → Option Nat
  | 0, _ => none
  | budget + 1, pos => do
    match ← bump? text pos with
    | none => some pos
    | some (c, next) =>
      let sign := (c == '+' || c == '-') && !hex && (previous == 'e' || previous == 'E')
      let point := c == '.' && (← charAt? text pos 1).any Char.isDigit
      if Text.continuesWord c || sign || point then numberEnd text hex c budget next
      else some pos

section Loops

variable {text cs : List Char} {pos budget : Nat}

/-- Looking ahead from a boundary does not fail and sees the characters that follow. -/
lemma charAt?_eq (h : Text.dropBytes? pos text = some cs) (n : Nat) :
    charAt? text pos n = some cs[n]? := by
  rw [charAt?, h, Option.map_some]

/-- There is no character to pass over at the end. -/
lemma bump?_nil (h : Text.dropBytes? pos text = some []) : bump? text pos = some none := by
  rw [bump?, charAt?_eq h]
  rfl

/-- Passing over a character leads to the boundary after it. -/
lemma bump?_cons {c} (h : Text.dropBytes? pos text = some (c :: cs)) :
    bump? text pos = some (some (c, pos + c.utf8Size)) := by
  rw [bump?, charAt?_eq h]
  rfl

/-- A budget that is larger than a number is not used up. -/
lemma exists_budget {n : Nat} (h : n < budget) : ∃ k, budget = k + 1 ∧ n ≤ k :=
  ⟨budget - 1, by omega, by omega⟩

/-- Skipping ends after the longest stretch of characters that satisfy the test. -/
lemma skipWhile_eq (p : Char → Bool) (h : Text.dropBytes? pos text = some cs)
    (hb : cs.length < budget) :
    skipWhile text p budget pos = some (pos + Text.byteLength (cs.takeWhile p)) := by
  induction cs generalizing budget pos with
  | nil =>
    obtain ⟨budget, rfl, hle⟩ := exists_budget hb
    rw [skipWhile, bump?_nil h]
    rfl
  | cons c cs ih =>
    obtain ⟨budget, rfl, hle⟩ := exists_budget hb
    rw [skipWhile, bump?_cons h, Option.bind_eq_bind, Option.bind_some]
    dsimp only
    split
    case isTrue hc =>
      rw [ih (Text.dropBytes?_next h) hle, List.takeWhile_cons_of_pos hc, Text.byteLength,
        Nat.add_assoc]
    case isFalse hc =>
      rw [List.takeWhile_cons_of_neg hc]
      rfl

/-- The offset after the first characters of a rest, as a count of characters says it. -/
def after (pos : Nat) (cs : List Char) (r : Nat × Bool) : Nat × Bool :=
  (pos + Text.byteLength (cs.take r.1), r.2)

/-- The end of a literal that takes one character more is found from the next position. -/
lemma after_succ {c : Char} {r : Nat × Bool} :
    after pos (c :: cs) (r.1 + 1, r.2) = after (pos + c.utf8Size) cs r := by
  rw [after, after, List.take_succ_cons, Text.byteLength, Nat.add_assoc]

/-- A literal of one character ends at the next position. -/
lemma after_one {c : Char} {closed : Bool} :
    after pos (c :: cs) (1, closed) = (pos + c.utf8Size, closed) := by
  rw [after, List.take_succ_cons, List.take_zero, Text.byteLength, Text.byteLength, Nat.add_zero]

/-- The position after a string is the one that its body calls for. -/
lemma stringEnd_eq (h : Text.dropBytes? pos text = some cs) (hb : cs.length < budget) :
    stringEnd text budget pos = some (after pos cs (stringBody cs)) := by
  induction cs using stringBody.induct generalizing budget pos with
  | case1 =>
    obtain ⟨budget, rfl, hle⟩ := exists_budget hb
    rw [stringEnd, bump?_nil h]
    rfl
  | case2 =>
    obtain ⟨k, rfl, hle⟩ := exists_budget hb
    obtain ⟨budget, rfl, -⟩ := exists_budget hle
    have hnext := Text.dropBytes?_next h
    rw [stringEnd, bump?_cons h, Option.bind_eq_bind, Option.bind_some]
    dsimp only
    rw [if_pos rfl, bump?_nil hnext, Option.bind_some]
    dsimp only
    rw [stringEnd, bump?_nil hnext]
    rfl
  | case3 d cs ih =>
    obtain ⟨budget, rfl, hle⟩ := exists_budget hb
    have hnext := Text.dropBytes?_next h
    rw [stringEnd, bump?_cons h, Option.bind_eq_bind, Option.bind_some]
    dsimp only
    rw [if_pos rfl, bump?_cons hnext, Option.bind_some]
    dsimp only
    rw [ih (Text.dropBytes?_next hnext) (Nat.lt_of_succ_lt hle), stringBody]
    exact congrArg some (after_succ.trans after_succ).symm
  | case4 cs h1 h2 =>
    obtain ⟨budget, rfl, hle⟩ := exists_budget hb
    rw [stringEnd, bump?_cons h, stringBody, if_pos rfl]
    · exact congrArg some after_one.symm
    · exact h1
    · exact h2
  | case5 cs h1 h2 h3 =>
    obtain ⟨budget, rfl, hle⟩ := exists_budget hb
    rw [stringEnd, bump?_cons h, stringBody, if_neg (by decide), if_pos rfl]
    · exact congrArg some after_one.symm
    · exact h1
    · exact h2
  | case6 c cs h1 h2 hq hn ih =>
    obtain ⟨budget, rfl, hle⟩ := exists_budget hb
    have hs : c ≠ '\\' := by
      rintro rfl
      cases cs with
      | nil => exact h1 rfl rfl
      | cons d cs => exact h2 d cs rfl rfl
    rw [stringEnd, bump?_cons h, Option.bind_eq_bind, Option.bind_some]
    dsimp only
    rw [if_neg hs, if_neg hq, if_neg hn, ih (Text.dropBytes?_next h) hle, stringBody_cons hs,
      if_neg hq, if_neg hn]
    exact congrArg some after_succ.symm

/-- The position after a verbatim string is the one that its body calls for. -/
lemma verbatimEnd_eq (h : Text.dropBytes? pos text = some cs) (hb : cs.length < budget) :
    verbatimEnd text budget pos = some (after pos cs (verbatimBody cs)) := by
  induction cs using verbatimBody.induct generalizing budget pos with
  | case1 =>
    obtain ⟨budget, rfl, hle⟩ := exists_budget hb
    rw [verbatimEnd, bump?_nil h]
    rfl
  | case2 cs ih =>
    obtain ⟨budget, rfl, hle⟩ := exists_budget hb
    have hnext := Text.dropBytes?_next h
    rw [verbatimEnd, bump?_cons h, Option.bind_eq_bind, Option.bind_some]
    dsimp only
    rw [if_pos rfl, bump?_cons hnext, Option.bind_some]
    dsimp only
    rw [if_pos rfl, ih (Text.dropBytes?_next hnext) (Nat.lt_of_succ_lt hle), verbatimBody]
    exact congrArg some (after_succ.trans after_succ).symm
  | case3 cs h1 =>
    obtain ⟨budget, rfl, hle⟩ := exists_budget hb
    have hnext := Text.dropBytes?_next h
    rw [verbatimEnd, bump?_cons h, Option.bind_eq_bind, Option.bind_some, verbatimBody, if_pos rfl]
    · rw [after_one]
      dsimp only
      rw [if_pos rfl]
      cases cs with
      | nil =>
        rw [bump?_nil hnext]
        rfl
      | cons x cs =>
        have hx : x ≠ '"' := by
          rintro rfl
          exact h1 cs rfl rfl
        rw [bump?_cons hnext, Option.bind_some]
        exact if_neg hx
    · exact h1
  | case4 c cs h1 hq ih =>
    obtain ⟨budget, rfl, hle⟩ := exists_budget hb
    rw [verbatimEnd, bump?_cons h, Option.bind_eq_bind, Option.bind_some]
    dsimp only
    rw [if_neg hq, ih (Text.dropBytes?_next h) hle, verbatimBody_cons hq]
    exact congrArg some after_succ.symm

/-- The position after a character literal is the one that its body calls for. -/
lemma characterEnd_eq {count : Nat} (h : Text.dropBytes? pos text = some cs)
    (hb : cs.length < budget) :
    characterEnd text count budget pos =
      some (after pos cs (characterBody (decide (0 < count)) cs)) := by
  have hfilled : ∀ count : Nat, decide (0 < count + 1) = true := fun _ => rfl
  generalize hf : decide (0 < count) = filled
  induction filled, cs using characterBody.induct generalizing budget pos count with
  | case1 =>
    obtain ⟨budget, rfl, hle⟩ := exists_budget hb
    rw [characterEnd, bump?_nil h]
    rfl
  | case2 =>
    obtain ⟨k, rfl, hle⟩ := exists_budget hb
    obtain ⟨budget, rfl, -⟩ := exists_budget hle
    have hnext := Text.dropBytes?_next h
    rw [characterEnd, bump?_cons h, Option.bind_eq_bind, Option.bind_some]
    dsimp only
    rw [if_pos rfl, bump?_nil hnext, Option.bind_some]
    dsimp only
    rw [characterEnd, bump?_nil hnext]
    rfl
  | case3 filled d cs ih =>
    obtain ⟨budget, rfl, hle⟩ := exists_budget hb
    have hnext := Text.dropBytes?_next h
    rw [characterEnd, bump?_cons h, Option.bind_eq_bind, Option.bind_some]
    dsimp only
    rw [if_pos rfl, bump?_cons hnext, Option.bind_some]
    dsimp only
    rw [ih (Text.dropBytes?_next hnext) (Nat.lt_of_succ_lt hle) (hfilled _), characterBody]
    exact congrArg some (after_succ.trans after_succ).symm
  | case4 filled cs h1 h2 =>
    obtain ⟨budget, rfl, hle⟩ := exists_budget hb
    rw [characterEnd, bump?_cons h, characterBody, if_pos rfl, ← hf]
    · exact congrArg some after_one.symm
    · exact h1
    · exact h2
  | case5 filled cs h1 h2 h3 =>
    obtain ⟨budget, rfl, hle⟩ := exists_budget hb
    rw [characterEnd, bump?_cons h, characterBody, if_neg (by decide), if_pos rfl]
    · exact congrArg some after_one.symm
    · exact h1
    · exact h2
  | case6 filled c cs h1 h2 hq hn ih =>
    obtain ⟨budget, rfl, hle⟩ := exists_budget hb
    have hs : c ≠ '\\' := by
      rintro rfl
      cases cs with
      | nil => exact h1 rfl rfl
      | cons d cs => exact h2 d cs rfl rfl
    rw [characterEnd, bump?_cons h, Option.bind_eq_bind, Option.bind_some]
    dsimp only
    rw [if_neg hs, if_neg hq, if_neg hn, ih (Text.dropBytes?_next h) hle (hfilled _),
      characterBody_cons hs, if_neg hq, if_neg hn]
    exact congrArg some after_succ.symm

/-- The position after a number is the one that its body calls for. -/
lemma numberEnd_eq {hex previous} (h : Text.dropBytes? pos text = some cs)
    (hb : cs.length < budget) :
    numberEnd text hex previous budget pos =
      some (pos + Text.byteLength (cs.take (numberBody hex previous cs))) := by
  induction cs generalizing budget pos previous with
  | nil =>
    obtain ⟨budget, rfl, hle⟩ := exists_budget hb
    rw [numberEnd, bump?_nil h]
    rfl
  | cons c cs ih =>
    obtain ⟨budget, rfl, hle⟩ := exists_budget hb
    have hpoint : (c :: cs)[1]? = cs.head? := by
      rw [List.getElem?_cons_succ, List.head?_eq_getElem?]
    rw [numberEnd, bump?_cons h, Option.bind_eq_bind, Option.bind_some]
    dsimp only
    rw [charAt?_eq h, Option.bind_eq_bind, Option.bind_some, hpoint, numberBody_cons]
    split
    case isTrue =>
      rw [ih (Text.dropBytes?_next h) hle, List.take_succ_cons, Text.byteLength, Nat.add_assoc]
    case isFalse => rfl

end Loops

/-- A computation in which a check may fail, and which may find a fault. -/
abbrev Checked (α : Type) :=
  ExceptT Located Option α

/-- A result that no check takes away. -/
def certain {α : Type} (x : Except Located α) : Checked α :=
  ExceptT.mk (some x)

section Certain

variable {α β : Type}

/-- What follows a certain result goes on with it. -/
lemma ok_certain_bind {a : α} {f : α → Checked β} : (certain (.ok a) >>= f) = f a := rfl

/-- What follows a check that does not fail goes on with what was checked. -/
lemma lift_bind {a : α} {x : Option α} {f : α → Checked β} (h : x = some a) :
    ((liftM x : Checked α) >>= f) = f a := by
  rw [h]
  rfl

end Certain

/-- A fault that goes from one offset up to another. -/
def faultTo {α : Type} (fault : Fault) (start finish : Nat) : Checked α := do
  let n ← sub? finish start
  throw ⟨fault, ⟨start, n⟩⟩

/-- How many bytes stand before the first occurrence of a pattern after an offset. -/
def find? (text pattern : List Char) (pos : Nat) : Option (Option Nat) :=
  (Text.dropBytes? pos text).map fun cs =>
    (Text.indexOf? pattern cs).map fun n => Text.byteLength (cs.take n)

/-- The offset after the next character. -/
def advance? (text : List Char) (pos : Nat) : Option Nat :=
  (bump? text pos).map fun r => r.elim pos Prod.snd

/-- A literal that starts at `start`, and where it ends, if it is closed. -/
def literalTo (kind : TokenKind) (fault : Fault) (start : Nat) (finish : Nat × Bool) :
    Checked (Shape × Nat) :=
  if finish.2 then return (.token kind, finish.1) else faultTo fault start finish.1

section Lexemes

variable (text : List Char)

/-- The end of a raw string, the quotes of which start at `pos`. -/
def rawStringAt (start pos : Nat) : Checked (Shape × Nat) := do
  let cs ← Text.dropBytes? pos text
  let quotes := (cs.takeWhile (· == '"')).length
  let delimiter ← slice? text pos (pos + quotes)
  match ← find? text delimiter (pos + quotes) with
  | some n => return (.token .string, pos + quotes + n + quotes)
  | none => throw ⟨.unterminatedRaw, ⟨start, quotes⟩⟩

/-- The end of a string that starts at `start`, the quote of which stands at `pos`. -/
def stringAt (start pos : Nat) : Checked (Shape × Nat) := do
  let cs ← Text.dropBytes? pos text
  if ['"', '"', '"'].isPrefixOf cs then rawStringAt text start pos
  else
    literalTo .string .unterminatedString start
      (← stringEnd text (text.length + 1) (← advance? text pos))

/-- The end of a verbatim string that starts at `start`, the quote of which stands at `pos`. -/
def verbatimAt (start pos : Nat) : Checked (Shape × Nat) := do
  literalTo .string .unterminatedVerbatim start
    (← verbatimEnd text (text.length + 1) (← advance? text pos))

/-- The end of a character literal. -/
def characterAt (start : Nat) : Checked (Shape × Nat) := do
  literalTo .character .badCharacter start
    (← characterEnd text 0 (text.length + 1) (← advance? text start))

/-- The end of a word that starts at `start` and goes on at `pos`. -/
def wordAt (start pos : Nat) (escaped : Bool) : Checked (Shape × Nat) := do
  let finish ← skipWhile text Text.continuesWord (text.length + 1) pos
  let word ← slice? text start finish
  let reserved := !escaped && Identifier.isKeyword (String.ofList word)
  return (.token (if reserved then .keyword else .identifier), finish)

/-- The end of what starts with `@` or `$`. -/
def markedAt (start : Nat) : Checked (Shape × Nat) := do
  let first ← charAt? text start 0
  let second ← charAt? text start 1
  let third ← charAt? text start 2
  let next ← advance? text start
  if first = some '@' && second = some '"' then verbatimAt text start next
  else if first = some '$' && second = some '"' then stringAt text start next
  else if (first = some '$' && second = some '@' || first = some '@' && second = some '$') &&
      third = some '"' then
    verbatimAt text start (← advance? text next)
  else if first = some '@' && second.any Text.startsWord then wordAt text start next true
  else throw ⟨.unexpectedCharacter (first.getD '@'), ⟨start, 1⟩⟩

/-- The end of a number. -/
def numberAt (start : Nat) : Checked (Shape × Nat) := do
  let cs ← Text.dropBytes? start text
  let hex := ['0', 'x'].isPrefixOf cs || ['0', 'X'].isPrefixOf cs
  return (.token .number, ← numberEnd text hex '\x00' (text.length + 1) start)

/-- The end of a punctuator. -/
def punctuatorAt (start : Nat) : Checked (Shape × Nat) := do
  let cs ← Text.dropBytes? start text
  match punctuators.find? (fun p => p.toList.isPrefixOf cs) with
  | some p => return (.token .punctuator, start + p.utf8ByteSize)
  | none =>
    let c := ((← charAt? text start 0).getD '\x00')
    throw ⟨.unexpectedCharacter c, ⟨start, c.utf8Size⟩⟩

/-- The end of a block comment. -/
def blockCommentAt (start : Nat) : Checked (Shape × Nat) := do
  match ← find? text ['*', '/'] (start + 2) with
  | some n => return (.blank, start + 2 + n + 2)
  | none => throw ⟨.unterminatedComment, ⟨start, 2⟩⟩

/-- The end of a line, from `start` on. -/
def lineAt (shape : Shape) (start : Nat) : Checked (Shape × Nat) := do
  return (shape, ← skipWhile text (· != '\n') (text.length + 1) start)

/-- What the lexeme is that starts with `c`, and where it ends. -/
def lexemeAt (directives lineStart : Bool) (c : Char) (start : Nat) : Checked (Shape × Nat) := do
  let second ← charAt? text start 1
  if Text.isBlank c then return (.blank, ← advance? text start)
  else if c = '/' && second = some '/' then lineAt text .blank start
  else if c = '/' && second = some '*' then blockCommentAt text start
  else if c = '#' then
    if !lineStart then throw ⟨.lateDirective, ⟨start, 1⟩⟩
    else if !directives then throw ⟨.forbiddenDirective, ⟨start, 1⟩⟩
    else lineAt text (.token .directive) start
  else if c = '"' then stringAt text start start
  else if c = '@' || c = '$' then markedAt text start
  else if c = '\'' then characterAt text start
  else if c.isDigit then numberAt text start
  else if c = '.' && second.any Char.isDigit then numberAt text start
  else if Text.startsWord c then wordAt text start start false
  else punctuatorAt text start

/-- The tokens from a position on. -/
def tokensAt (directives : Bool) : (budget : Nat) → Position → Checked (List Token)
  | 0, _ => ExceptT.mk none
  | budget + 1, p => do
    match ← charAt? text p.offset 0 with
    | none => return []
    | some c =>
      let (shape, next) ← lexemeAt text directives p.lineStart c p.offset
      match shape with
      | .blank => tokensAt directives budget ⟨p.lineStart || c == '\n', true, next⟩
      | .token kind =>
        let word ← slice? text p.offset next
        let ts ← tokensAt directives budget ⟨false, false, next⟩
        return ⟨kind, String.ofList word, p.offset, p.spaced⟩ :: ts

end Lexemes

/-- The end of a lexeme that is given by its number of characters, where `all` starts at `start`. -/
def ended (start : Nat) (all : List Char) : Except Stuck Lexeme → Except Located (Shape × Nat)
  | .ok l => .ok (l.shape, start + Text.byteLength (all.take (l.extra + 1)))
  | .error stuck => .error ⟨stuck.fault, ⟨start, Text.byteLength (all.take stuck.covered)⟩⟩

/-- A fault up to a later position spans the bytes in between. -/
lemma faultTo_add {α : Type} {fault : Fault} {start n : Nat} :
    (faultTo fault start (start + n) : Checked α) = certain (.error ⟨fault, ⟨start, n⟩⟩) := by
  rw [faultTo, lift_bind sub?_add_right]
  rfl

section Agreement

variable {text cs : List Char} {start pos : Nat}

/-- Advancing leads to the boundary after the character. -/
lemma advance?_cons {c} (h : Text.dropBytes? pos text = some (c :: cs)) :
    advance? text pos = some (pos + c.utf8Size) := by
  rw [advance?, bump?_cons h]
  rfl

/-- A budget of more than the text has characters covers what is left of it. -/
lemma budget_of_dropBytes? (h : Text.dropBytes? pos text = some cs) :
    cs.length < text.length + 1 :=
  Nat.lt_succ_of_le (Text.length_le_of_dropBytes? h)

/-- Taking a lead, a quote and part of a body leaves the lead and the quote whole. -/
lemma take_lead {lead body : List Char} {q : Char} {n : Nat} :
    (lead ++ q :: body).take (lead.length + n + 1) = lead ++ q :: body.take n := by
  rw [Nat.add_assoc, List.take_length_add_append, List.take_succ_cons]

/-- The bytes of a literal are those of its lead, its quote and its body. -/
lemma byteLength_lead {lead body : List Char} {q : Char} :
    Text.byteLength (lead ++ q :: body) =
      Text.byteLength lead + q.utf8Size + Text.byteLength body := by
  rw [Text.byteLength_append, Text.byteLength, Nat.add_assoc]

/-- A literal is cut off where the count of its characters says it ends. -/
lemma literalTo_eq {kind : TokenKind} {fault : Fault} {lead body : List Char} {q : Char}
    {r : Nat × Bool} :
    literalTo kind fault start (after (start + Text.byteLength lead + q.utf8Size) body r) =
      certain (ended start (lead ++ q :: body)
        (if r.2 then .ok ⟨.token kind, lead.length + r.1⟩
          else .error ⟨fault, lead.length + 1 + r.1⟩)) := by
  have hplace : start + Text.byteLength lead + q.utf8Size + Text.byteLength (body.take r.1) =
      start + Text.byteLength (lead ++ q :: body.take r.1) := by
    rw [byteLength_lead]
    omega
  rw [literalTo, after, hplace]
  dsimp only
  split
  case isTrue =>
    rw [ended, take_lead]
    rfl
  case isFalse => rw [faultTo_add, ended, Nat.add_right_comm, take_lead]

/-- A verbatim string is read at its position as it is from its characters. -/
lemma verbatimAt_eq {lead body : List Char}
    (h : Text.dropBytes? start text = some (lead ++ '"' :: body)) :
    verbatimAt text start (start + Text.byteLength lead) =
      certain (ended start (lead ++ '"' :: body) (verbatimLexeme lead.length body)) := by
  have hquote := Text.dropBytes?_after h
  have hbody := Text.dropBytes?_next hquote
  rw [verbatimAt, lift_bind (advance?_cons hquote),
    lift_bind (verbatimEnd_eq hbody (budget_of_dropBytes? hbody)), literalTo_eq, verbatimLexeme]
  obtain ⟨n, _ | _⟩ := verbatimBody body <;> rfl

/-- Text whose characters have one byte each has as many bytes as characters. -/
lemma byteLength_of_ascii (h : ∀ c ∈ cs, c.utf8Size = 1) : Text.byteLength cs = cs.length := by
  induction cs with
  | nil => rfl
  | cons c cs ih =>
    obtain ⟨hc, hcs⟩ := List.forall_mem_cons.1 h
    rw [Text.byteLength, hc, ih hcs, List.length_cons, Nat.add_comm]

/-- Quotes have one byte each. -/
lemma byteLength_quotes {n : Nat} : Text.byteLength (List.replicate n '"') = n := by
  rw [byteLength_of_ascii, List.length_replicate]
  intro c hc
  rw [List.eq_of_mem_replicate hc]
  rfl

/-- A pattern is found at the byte where its first character stands. -/
lemma find?_eq {pattern : List Char} (h : Text.dropBytes? pos text = some cs) :
    find? text pattern pos =
      some ((Text.indexOf? pattern cs).map fun n => Text.byteLength (cs.take n)) := by
  rw [find?, h, Option.map_some]

/-- A raw string is read at its position as it is from its characters. -/
lemma rawStringAt_eq {lead body : List Char} (hlead : ∀ c ∈ lead, c.utf8Size = 1)
    (h : Text.dropBytes? start text = some (lead ++ '"' :: body))
    (hraw : ['"', '"'].isPrefixOf body = true) :
    rawStringAt text start (start + Text.byteLength lead) =
      certain (ended start (lead ++ '"' :: body) (stringLexeme lead.length body)) := by
  have hquote := Text.dropBytes?_after h
  obtain ⟨quotes, rest, rfl, hquotes, hrest⟩ := Text.exists_takeWhile_split (· == '"') body
  have hall : quotes = List.replicate quotes.length '"' :=
    List.eq_replicate_of_mem fun c hc => beq_iff_eq.1 (hquotes c hc)
  have hopening : '"' :: quotes = List.replicate (quotes.length + 1) '"' := by
    rw [List.replicate_succ, ← hall]
  have hcount : (('"' :: (quotes ++ rest)).takeWhile (· == '"')).length = quotes.length + 1 := by
    rw [List.takeWhile_cons_of_pos rfl, Text.takeWhile_append_stop hquotes hrest, List.length_cons]
  rw [← List.cons_append] at hquote
  have hdelimiter := slice?_of_append hquote
  have hbody := Text.dropBytes?_after hquote
  rw [hopening, byteLength_quotes] at hdelimiter hbody
  rw [rawStringAt, lift_bind hquote]
  dsimp only
  rw [List.cons_append, hcount, lift_bind hdelimiter, lift_bind (find?_eq hbody), stringLexeme,
    if_pos hraw]
  dsimp only
  rw [Text.takeWhile_append_stop hquotes hrest, List.drop_left]
  cases hindex : Text.indexOf? (List.replicate (quotes.length + 1) '"') rest with
  | some n =>
    obtain ⟨before, tail, rfl, rfl, -⟩ := (Text.indexOf?_eq_some_iff (by simp)).1 hindex
    have hcut : lead ++ '"' :: (quotes ++
        (before ++ List.replicate (quotes.length + 1) '"' ++ tail)) =
          lead ++ ('"' :: quotes) ++ before ++ List.replicate (quotes.length + 1) '"' ++ tail := by
      simp
    have htake : (lead ++ '"' :: (quotes ++
        (before ++ List.replicate (quotes.length + 1) '"' ++ tail))).take
          (lead.length + quotes.length + before.length + (quotes.length + 1) + 1) =
            lead ++ ('"' :: quotes) ++ before ++ List.replicate (quotes.length + 1) '"' := by
      rw [hcut, List.take_left']
      simp only [List.length_append, List.length_cons, List.length_replicate]
      omega
    have hfront : (before ++ List.replicate (quotes.length + 1) '"' ++ tail).take before.length =
        before := by
      rw [List.append_assoc, List.take_left]
    rw [Option.map_some, ended, htake, hfront, hopening]
    simp only [Text.byteLength_append, byteLength_quotes, ← Nat.add_assoc]
    rfl
  | none =>
    have hascii : Text.byteLength ((lead ++ '"' :: (quotes ++ rest)).take (quotes.length + 1)) =
        quotes.length + 1 := by
      have hlength : quotes.length + 1 ≤ (lead ++ '"' :: quotes).length := by simp
      rw [← List.cons_append, ← List.append_assoc, List.take_append_of_le_length hlength,
        byteLength_of_ascii, List.length_take, Nat.min_eq_left hlength]
      intro c hc
      rcases List.mem_append.1 (List.mem_of_mem_take hc) with hc | hc
      · exact hlead c hc
      · rw [hopening] at hc
        rw [List.eq_of_mem_replicate hc]
        rfl
    rw [Option.map_none, ended, hascii]
    rfl

/-- A string is read at its position as it is from its characters. -/
lemma stringAt_eq {lead body : List Char} (hlead : ∀ c ∈ lead, c.utf8Size = 1)
    (h : Text.dropBytes? start text = some (lead ++ '"' :: body)) :
    stringAt text start (start + Text.byteLength lead) =
      certain (ended start (lead ++ '"' :: body) (stringLexeme lead.length body)) := by
  have hquote := Text.dropBytes?_after h
  have hbody := Text.dropBytes?_next hquote
  rw [stringAt, lift_bind hquote]
  split
  case isTrue hraw => exact rawStringAt_eq hlead h (by simpa using hraw)
  case isFalse hraw =>
    have hplain : ¬['"', '"'].isPrefixOf body = true := by simpa using hraw
    rw [lift_bind (advance?_cons hquote),
      lift_bind (stringEnd_eq hbody (budget_of_dropBytes? hbody)), literalTo_eq, stringLexeme,
      if_neg hplain]
    obtain ⟨n, _ | _⟩ := stringBody body <;> rfl

/-- A character literal is read at its position as it is from its characters. -/
lemma characterAt_eq {body : List Char} (h : Text.dropBytes? start text = some ('\'' :: body)) :
    characterAt text start = certain (ended start ('\'' :: body)
      (match characterBody false body with
        | (n, true) => .ok ⟨.token .character, n⟩
        | (n, false) => .error ⟨.badCharacter, 1 + n⟩)) := by
  have hbody := Text.dropBytes?_next h
  have hplace : start + '\''.utf8Size = start + Text.byteLength [] + '\''.utf8Size := rfl
  have hall : '\'' :: body = [] ++ '\'' :: body := rfl
  rw [characterAt, lift_bind (advance?_cons h),
    lift_bind (characterEnd_eq hbody (budget_of_dropBytes? hbody)), hplace, literalTo_eq, hall]
  have hempty : decide (0 < 0) = false := rfl
  rw [hempty]
  generalize characterBody false body = r
  obtain ⟨n, _ | _⟩ := r <;> simp

/-- A word is read at its position up to where it ends, and told from a reserved one. -/
lemma wordAt_eq {lead : List Char} {escaped : Bool}
    (h : Text.dropBytes? start text = some (lead ++ cs)) :
    wordAt text start (start + Text.byteLength lead) escaped =
      certain (.ok (.token
        (if !escaped &&
            Identifier.isKeyword (String.ofList (lead ++ cs.takeWhile Text.continuesWord))
          then .keyword else .identifier),
        start + Text.byteLength (lead ++ cs.takeWhile Text.continuesWord))) := by
  have hrest := Text.dropBytes?_after h
  have hsplit : lead ++ cs =
      lead ++ cs.takeWhile Text.continuesWord ++ cs.dropWhile Text.continuesWord := by
    rw [List.append_assoc, List.takeWhile_append_dropWhile]
  rw [wordAt, lift_bind (skipWhile_eq Text.continuesWord hrest (budget_of_dropBytes? hrest)),
    Nat.add_assoc, ← Text.byteLength_append]
  rw [hsplit] at h
  rw [lift_bind (slice?_of_append h)]
  rfl

/-- Taking as many characters as satisfy a test takes those. -/
lemma byteLength_take_takeWhile {p : Char → Bool} :
    Text.byteLength (cs.take (cs.takeWhile p).length) = Text.byteLength (cs.takeWhile p) := by
  rw [← List.prefix_iff_eq_take.1 (List.takeWhile_prefix p)]

/-- An escaped identifier is one also when it is a reserved word. -/
lemma escapedAt_eq {c : Char} (h : Text.dropBytes? start text = some (c :: cs)) :
    wordAt text start (start + Text.byteLength [c]) true = certain (ended start (c :: cs)
      (.ok ⟨.token .identifier, (cs.takeWhile Text.continuesWord).length⟩)) := by
  have hword : Text.dropBytes? start text = some ([c] ++ cs) := h
  rw [wordAt_eq hword, ended]
  dsimp only
  rw [List.take_succ_cons, Text.byteLength, byteLength_take_takeWhile]
  rfl

/-- A word without a mark before it is read at its position as it is from its characters. -/
lemma plainWordAt_eq {c : Char} (hc : Text.startsWord c = true)
    (h : Text.dropBytes? start text = some (c :: cs)) :
    wordAt text start start false = certain (ended start (c :: cs) (.ok (wordLexeme c cs))) := by
  have hstart : Text.dropBytes? start text = some ([] ++ c :: cs) := h
  have hword : wordAt text start start false = _ := wordAt_eq hstart
  rw [hword, List.nil_append,
    List.takeWhile_cons_of_pos (Text.continuesWord_of_startsWord hc), wordLexeme, ended]
  dsimp only
  rw [List.take_succ_cons, Text.byteLength, Text.byteLength, byteLength_take_takeWhile]
  rfl

/-- What goes on to the end of a line is read at its position as it is from its characters. -/
lemma lineAt_eq {shape : Shape} {c : Char} (hc : c ≠ '\n')
    (h : Text.dropBytes? start text = some (c :: cs)) :
    lineAt text shape start =
      certain (ended start (c :: cs) (.ok ⟨shape, (cs.takeWhile (· != '\n')).length⟩)) := by
  rw [lineAt, lift_bind (skipWhile_eq (· != '\n') h (budget_of_dropBytes? h)),
    List.takeWhile_cons_of_pos (by simpa using hc), ended, List.take_succ_cons, Text.byteLength,
    Text.byteLength, byteLength_take_takeWhile]
  rfl

/-- A comment that has to be closed is read at its position as from its characters. -/
lemma blockCommentAt_eq (h : Text.dropBytes? start text = some ('/' :: '*' :: cs)) :
    blockCommentAt text start = certain (ended start ('/' :: '*' :: cs)
      (match Text.indexOf? ['*', '/'] cs with
        | some n => .ok ⟨.blank, n + 3⟩
        | none => .error ⟨.unterminatedComment, 2⟩)) := by
  have hbody : Text.dropBytes? (start + 2) text = some cs :=
    Text.dropBytes?_next (Text.dropBytes?_next h)
  rw [blockCommentAt, lift_bind (find?_eq hbody)]
  cases hindex : Text.indexOf? ['*', '/'] cs with
  | some n =>
    obtain ⟨before, tail, rfl, rfl, -⟩ := (Text.indexOf?_eq_some_iff (by simp)).1 hindex
    have hfront : (before ++ ['*', '/'] ++ tail).take before.length = before := by
      rw [List.append_assoc, List.take_left]
    have hwhole : (before ++ ['*', '/'] ++ tail).take (before.length + 2) = before ++ ['*', '/'] :=
      List.take_left' (by simp)
    have hplace : start + 2 + Text.byteLength before + 2 =
        start + Text.byteLength ('/' :: '*' :: (before ++ ['*', '/'])) := by
      simp only [Text.byteLength, Text.byteLength_append]
      show start + 2 + Text.byteLength before + 2 =
        start + (1 + (1 + (Text.byteLength before + (1 + (1 + 0)))))
      omega
    rw [Option.map_some, hfront]
    dsimp only [ended]
    rw [List.take_succ_cons, List.take_succ_cons, hwhole, hplace]
    rfl
  | none => rfl

/-- A number is read at its position as it is from its characters. -/
lemma numberAt_eq {c : Char} (hc : c.isDigit = true ∨ c = '.' ∧ cs.head?.any Char.isDigit = true)
    (h : Text.dropBytes? start text = some (c :: cs)) :
    numberAt text start = certain (ended start (c :: cs) (.ok (numberLexeme c cs))) := by
  have hhex : (['0', 'x'].isPrefixOf (c :: cs) || ['0', 'X'].isPrefixOf (c :: cs)) =
      isHex c cs := by
    rw [isHex, Bool.and_or_distrib_left]
    cases cs with
    | nil => simp [List.isPrefixOf]
    | cons d cs =>
      simp only [List.isPrefixOf, Bool.and_true, List.head?_cons, Option.some_beq_some]
      rw [@Bool.beq_comm _ _ _ '0', @Bool.beq_comm _ _ _ 'x', @Bool.beq_comm _ _ _ 'X']
  have hfirst : ∀ hex, numberBody hex '\x00' (c :: cs) = numberBody hex c cs + 1 := by
    intro hex
    rw [numberBody_cons, if_pos]
    rcases hc with hc | ⟨rfl, hc⟩
    · simp [Text.continuesWord_of_isDigit hc]
    · simp [hc]
  rw [numberAt, lift_bind h]
  dsimp only
  rw [hhex, lift_bind (numberEnd_eq h (budget_of_dropBytes? h)), hfirst]
  rfl

/-- A punctuator is read at its position as it is from its characters. -/
lemma punctuatorAt_eq {c : Char} (h : Text.dropBytes? start text = some (c :: cs)) :
    punctuatorAt text start = certain (ended start (c :: cs) (punctuatorLexeme c cs)) := by
  rw [punctuatorAt, lift_bind h, punctuatorLexeme]
  cases hfind : punctuators.find? (fun p => p.toList.isPrefixOf (c :: cs)) with
  | none =>
    dsimp only
    rw [lift_bind (charAt?_eq h 0)]
    rfl
  | some p =>
    have hprefix : p.toList.isPrefixOf (c :: cs) = true :=
      List.find?_some (p := fun p : String => p.toList.isPrefixOf (c :: cs)) hfind
    obtain ⟨r, hr⟩ := List.isPrefixOf_iff_prefix.1 hprefix
    have hpos : p.length - 1 + 1 = p.toList.length := by
      have := List.length_pos_iff.2 (punctuator_ne_nil p (List.mem_of_find?_eq_some hfind))
      rw [String.length_toList] at *
      omega
    dsimp only [ended]
    rw [hpos, ← hr, List.take_left, Text.byteLength_toList]
    rfl

/-- What a mark starts that one character follows, no quote. -/
lemma markedLexeme_single {c d : Char} (hd : d ≠ '"') :
    markedLexeme c [d] =
      if c = '@' && Text.startsWord d then .ok ⟨.token .identifier, 1⟩
      else .error ⟨.unexpectedCharacter c, 1⟩ := by
  rw [markedLexeme]
  exact hd

/-- What a mark starts that two characters follow, the first of them no quote. -/
lemma markedLexeme_pair {c d e : Char} {rest : List Char} (hd : d ≠ '"') :
    markedLexeme c (d :: e :: rest) =
      if e = '"' && ((c = '$' && d = '@') || (c = '@' && d = '$')) then verbatimLexeme 2 rest
      else if c = '@' && Text.startsWord d then
        .ok ⟨.token .identifier, ((d :: e :: rest).takeWhile Text.continuesWord).length⟩
      else .error ⟨.unexpectedCharacter c, 1⟩ := by
  rw [markedLexeme]
  exact hd

/-- What a mark starts is read at its position as it is from its characters. -/
lemma markedAt_eq {c : Char} (hc : c = '@' ∨ c = '$')
    (h : Text.dropBytes? start text = some (c :: cs)) :
    markedAt text start = certain (ended start (c :: cs) (markedLexeme c cs)) := by
  have hfirst : (c :: cs)[0]? = some c := rfl
  have hsize : c.utf8Size = 1 := by rcases hc with rfl | rfl <;> rfl
  have hlead : ∀ x ∈ [c], x.utf8Size = 1 := by simpa using hsize
  have hnext : start + c.utf8Size = start + Text.byteLength [c] := rfl
  have hstuck : certain (ended start (c :: cs) (.error ⟨.unexpectedCharacter c, 1⟩)) =
      throw ⟨.unexpectedCharacter c, ⟨start, 1⟩⟩ := by
    rw [ended, List.take_succ_cons, List.take_zero, Text.byteLength, hsize]
    rfl
  have hsecond : (c :: cs)[1]? = cs[0]? := rfl
  have hthird : (c :: cs)[2]? = cs[1]? := rfl
  rw [markedAt, lift_bind (charAt?_eq h 0), lift_bind (charAt?_eq h 1), lift_bind (charAt?_eq h 2),
    lift_bind (advance?_cons h), hfirst, hsecond, hthird, hnext]
  rcases cs with _ | ⟨d, cs⟩
  · rcases hc with rfl | rfl <;> rfl
  by_cases hd : d = '"'
  · subst hd
    rcases hc with rfl | rfl
    · have hquote : Text.dropBytes? start text = some (['@'] ++ '"' :: cs) := h
      exact verbatimAt_eq hquote
    · have hquote : Text.dropBytes? start text = some (['$'] ++ '"' :: cs) := h
      exact stringAt_eq hlead hquote
  rw [List.getElem?_cons_zero, List.getElem?_cons_succ]
  rw [if_neg (by simp [hd]), if_neg (by simp [hd])]
  rcases cs with _ | ⟨e, rest⟩
  · rw [markedLexeme_single hd, if_neg (by simp)]
    by_cases hword : c = '@' ∧ Text.startsWord d = true
    · have hone : 1 = ([d].takeWhile Text.continuesWord).length := by
        rw [List.takeWhile_cons_of_pos (Text.continuesWord_of_startsWord hword.2)]
        rfl
      rw [if_pos (by simpa using hword), if_pos (by simpa using hword), escapedAt_eq h, ← hone]
    · rw [if_neg (by simpa using hword), if_neg (by simpa using hword)]
      exact hstuck.symm
  · rw [markedLexeme_pair hd, List.getElem?_cons_zero]
    by_cases hverbatim : e = '"' ∧ (c = '$' ∧ d = '@' ∨ c = '@' ∧ d = '$')
    · obtain ⟨rfl, hmarks⟩ := hverbatim
      have hd : Text.dropBytes? (start + Text.byteLength [c]) text = some (d :: '"' :: rest) :=
        Text.dropBytes?_next h
      have hplace : start + Text.byteLength [c] + d.utf8Size = start + Text.byteLength [c, d] := by
        simp [Text.byteLength, Nat.add_assoc]
      rw [if_pos (by simpa using hmarks), if_pos (by simpa using hmarks),
        lift_bind (advance?_cons hd), hplace]
      have hquote : Text.dropBytes? start text = some ([c, d] ++ '"' :: rest) := h
      exact verbatimAt_eq hquote
    · have hmarks : ¬((c = '$' ∧ d = '@' ∨ c = '@' ∧ d = '$') ∧ e = '"') := fun h =>
        hverbatim h.symm
      by_cases hword : c = '@' ∧ Text.startsWord d = true
      · rw [if_neg (by simpa using hmarks), if_pos (by simpa using hword),
          if_neg (by simpa using hverbatim), if_pos (by simpa using hword), escapedAt_eq h]
      · rw [if_neg (by simpa using hmarks), if_neg (by simpa using hword),
          if_neg (by simpa using hverbatim), if_neg (by simpa using hword)]
        exact hstuck.symm

/-- Every lexeme is read at its position as it is from its characters. -/
lemma lexemeAt_eq {directives lineStart : Bool} {c : Char}
    (h : Text.dropBytes? start text = some (c :: cs)) :
    lexemeAt text directives lineStart c start =
      certain (ended start (c :: cs) (lexeme directives lineStart c cs)) := by
  have hsecond : (c :: cs)[1]? = cs.head? := by
    rw [List.getElem?_cons_succ, List.head?_eq_getElem?]
  have hhead : ∀ d, (c = '/' && cs.head? == some d) = (c = '/' && cs.head? = some d) := fun d => by
    rw [beq_eq_decide]
  rw [lexemeAt, lift_bind (charAt?_eq h 1), hsecond, lexeme, hhead, hhead]
  by_cases hblank : Text.isBlank c = true
  · rw [if_pos hblank, if_pos hblank, lift_bind (advance?_cons h)]
    rfl
  rw [if_neg hblank, if_neg hblank]
  by_cases hline : (c = '/' && cs.head? = some '/') = true
  · rw [if_pos hline, if_pos hline]
    refine lineAt_eq ?_ h
    rintro rfl
    simp at hline
  rw [if_neg hline, if_neg hline]
  by_cases hblock : (c = '/' && cs.head? = some '*') = true
  · rw [if_pos hblock, if_pos hblock]
    simp only [Bool.and_eq_true, decide_eq_true_eq] at hblock
    obtain ⟨rfl, hstar⟩ := hblock
    obtain ⟨cs, rfl⟩ := List.head?_eq_some_iff.1 hstar
    exact blockCommentAt_eq h
  rw [if_neg hblock, if_neg hblock]
  by_cases hsign : c = '#'
  · subst hsign
    rw [if_pos rfl, if_pos rfl]
    cases lineStart with
    | false => rfl
    | true =>
      cases directives with
      | false => rfl
      | true => exact lineAt_eq (by decide) h
  rw [if_neg hsign, if_neg hsign]
  by_cases hquote : c = '"'
  · subst hquote
    rw [if_pos rfl, if_pos rfl]
    have hquote : Text.dropBytes? start text = some ([] ++ '"' :: cs) := h
    exact stringAt_eq (List.forall_mem_nil _) hquote
  rw [if_neg hquote, if_neg hquote]
  by_cases hmarked : (c = '@' || c = '$') = true
  · rw [if_pos hmarked, if_pos hmarked]
    exact markedAt_eq (by simpa using hmarked) h
  rw [if_neg hmarked, if_neg hmarked]
  by_cases hcharacter : c = '\''
  · rw [if_pos hcharacter, if_pos hcharacter]
    subst hcharacter
    exact characterAt_eq h
  rw [if_neg hcharacter, if_neg hcharacter]
  by_cases hdigit : c.isDigit = true
  · rw [if_pos hdigit, if_pos hdigit]
    exact numberAt_eq (.inl hdigit) h
  rw [if_neg hdigit, if_neg hdigit]
  by_cases hpoint : (c = '.' && cs.head?.any Char.isDigit) = true
  · rw [if_pos hpoint, if_pos hpoint]
    exact numberAt_eq (.inr (by simpa using hpoint)) h
  rw [if_neg hpoint, if_neg hpoint]
  by_cases hword : Text.startsWord c = true
  · rw [if_pos hword, if_pos hword]
    exact plainWordAt_eq hword h
  · rw [if_neg hword, if_neg hword]
    exact punctuatorAt_eq h

/-- All tokens are read at their positions as they are from the characters. -/
lemma tokensAt_eq {directives : Bool} {budget : Nat} {p : Position}
    (h : Text.dropBytes? p.offset text = some cs) (hb : cs.length < budget) :
    tokensAt text directives budget p = certain (tokensFrom directives p 0 cs) := by
  induction budget generalizing p cs with
  | zero => cases hb
  | succ budget ih =>
    rw [tokensAt, lift_bind (charAt?_eq h 0)]
    cases cs with
    | nil => rfl
    | cons c cs =>
      rw [List.getElem?_cons_zero]
      dsimp only
      rw [lexemeAt_eq h, tokensFrom]
      cases hl : lexeme directives p.lineStart c cs with
      | error stuck => rfl
      | ok l =>
        obtain ⟨shape, n⟩ := l
        have hsplit : c :: cs = c :: cs.take n ++ cs.drop n := by simp
        have hlength : (cs.drop n).length < budget := by
          rw [List.length_drop]
          simp only [List.length_cons] at hb
          omega
        rw [hsplit] at h
        have hnext := Text.dropBytes?_after h
        rw [ended, ok_certain_bind]
        dsimp only
        rw [List.take_succ_cons]
        cases shape with
        | blank =>
          dsimp only
          rw [ih hnext hlength, ← tokensFrom_skip]
        | token kind =>
          dsimp only
          rw [lift_bind (slice?_of_append h), ih hnext hlength, ← tokensFrom_skip]
          cases tokensFrom directives
            ⟨false, false, p.offset + Text.byteLength (c :: cs.take n)⟩ n cs <;> rfl

end Agreement

/-- The tokens of a text. -/
def tokenizeAt (directives : Bool) (text : String) : Checked (List Token) :=
  tokensAt text.toList directives (text.toList.length + 1) .start

/-- Reading tokens by positions finds the tokens of a text, or the fault that stops them, and never
cuts the text outside of it or inside of a character. -/
theorem tokenizeAt_eq (directives : Bool) (text : String) :
    tokenizeAt directives text = certain (tokenize directives text) :=
  tokensAt_eq Text.dropBytes?_zero (Nat.lt_succ_self _)

end Positions

end SharpSmith
