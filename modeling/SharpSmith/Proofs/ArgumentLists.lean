import SharpSmith.Proofs.PositionTables
import SharpSmith.Proofs.Shifts

/-!
# Brackets of type arguments

The signs that are taken for brackets of type arguments nest like parentheses, and are read as such
here: `parentheses` turns each of them into one and leaves no other delimiters, so that `Bracketed`
and `PairAt` say of them what they say of delimiters. While tokens are marked, the lists that are
open wait for as many `>`, which is what `balanced_parentheses` carries from token to token. Lists
that start inside of another one end there too, and a `<` that starts none is not marked at all.
-/

namespace SharpSmith.Fragment

/-- A token as a delimiter: with the mark of a bracket of type arguments it is a parenthesis, and
without the mark it is none. -/
def parenthesis (x : Token × Bool) : Token :=
  { x.1 with
    kind := if x.2 then x.1.kind else .identifier
    text := if x.1.text == "<" then "(" else ")" }

/-- The brackets of type arguments among some tokens as parentheses, with no other delimiters. -/
def parentheses (ts : List Token) : List Token :=
  (flagged ts).map parenthesis

/-- A token of a list of type arguments as a delimiter. -/
def listed (t : Token) : Token :=
  parenthesis (t, t.is "<" || t.is ">")

/-- The brackets at places `i` and `j` enclose a list of type arguments that stands in no other. -/
structure Outermost (ts : List Token) (i j : Nat) : Prop where
  pair : PairAt (parentheses ts) i j
  outer : ∀ k l, PairAt (parentheses ts) k l → ¬(k < i ∧ j < l)

/-- The brackets of type arguments are well formed: the depth is never taken below zero when they
are looked for, only signs `<` and `>` are marked, and these nest. A list that stands in no other
one starts just after an identifier, and holds tokens of types only, with all of its signs `<` and
`>` marked. In the roles of tokens every bracket that opens a list has one of its own that closes
it. -/
structure ArgumentLists (ts : List Token) : Prop where
  counted : Positions.genericBracketsAt ts = some (genericBrackets none 0 ts)
  angles : ∀ (i : Nat) t, ts[i]? = some t → (genericBrackets none 0 ts)[i]? = some true →
    t.is "<" = true ∨ t.is ">" = true
  bracketed : Bracketed (delimiters (parentheses ts))
  named : ∀ i j, Outermost ts i j → ∃ k t, i = k + 1 ∧ ts[k]? = some t ∧ t.kind = .identifier
  held : ∀ i j (k : Nat) t, Outermost ts i j → i < k → k < j → ts[k]? = some t →
    (t.kind = .identifier ∨ t.isKeywordIn typeKeywords = true ∨
        ∃ sign ∈ ["<", ">", ",", ".", "?", "[", "]"], t.is sign = true) ∧
      (genericBrackets none 0 ts)[k]? = some (t.is "<" || t.is ">")
  opened : ∀ i : Nat, (∃ t, (roles ts)[i]? = some (t, .genericOpen)) ↔
    ∃ j, PairAt (parentheses ts) i j
  closed : ∀ j : Nat, (∃ t, (roles ts)[j]? = some (t, .genericClose)) ↔
    ∃ i, PairAt (parentheses ts) i j
  own : ∀ i j k l, PairAt (parentheses ts) i j → PairAt (parentheses ts) k l → (i = k ↔ j = l)

section Parentheses

variable {t : Token} {stack : List String}

/-- A token opens a list just if it is marked and is a `<`. -/
lemma opens_parenthesis {marked} :
    (parenthesis (t, marked)).opens = true ↔
      t.kind = .punctuator ∧ marked = true ∧ t.text = "<" := by
  cases marked with
  | true => by_cases ht : t.text = "<" <;> simp [parenthesis, Token.opens, Token.is, ht]
  | false => simp [parenthesis, Token.opens, Token.is]

/-- A token closes a list just if it is marked and is no `<`. -/
lemma closes_parenthesis {marked} :
    (parenthesis (t, marked)).closes = true ↔
      t.kind = .punctuator ∧ marked = true ∧ t.text ≠ "<" := by
  cases marked with
  | true =>
    by_cases ht : t.text = "<" <;>
      simp [parenthesis, Token.closes, Token.closes?, Token.is, ht]
  | false => simp [parenthesis, Token.closes, Token.closes?, Token.is]

/-- A marked `<` opens a list. -/
lemma opens_of_less (h : t.is "<" = true) : (parenthesis (t, true)).opens = true := by
  simp only [Token.is, Bool.and_eq_true, beq_iff_eq] at h
  exact opens_parenthesis.2 ⟨h.1, rfl, h.2⟩

/-- A marked `<` counts as an opening parenthesis. -/
lemma text_of_less (h : t.is "<" = true) : (parenthesis (t, true)).text = "(" := by
  simp only [Token.is, Bool.and_eq_true, beq_iff_eq] at h
  simp [parenthesis, h.2]

/-- A marked `>` closes what an opening parenthesis opens. -/
lemma closes?_of_greater (h : t.is ">" = true) : (parenthesis (t, true)).closes? = some "(" := by
  simp only [Token.is, Bool.and_eq_true, beq_iff_eq] at h
  simp [parenthesis, Token.closes?, Token.is, h.1, h.2]

/-- A marked `<` adds a list to those that are open. -/
lemma nest?_less (h : t.is "<" = true) :
    (parenthesis (t, true)).nest? stack = some ("(" :: stack) := by
  rw [nest?_opens (opens_of_less h), text_of_less h]

/-- A marked `>` closes the innermost list. -/
lemma nest?_greater (h : t.is ">" = true) :
    (parenthesis (t, true)).nest? ("(" :: stack) = some stack :=
  nest?_closes (closes?_of_greater h)

/-- A token that is not marked leaves the open lists as they are. -/
lemma nest?_unmarked : (parenthesis (t, false)).nest? stack = some stack := by
  have hk : (parenthesis (t, false)).kind ≠ .punctuator := nofun
  exact nest?_token (opens_of_kind hk) (closes_of_kind hk)

/-- In a list each `<` is marked. -/
lemma listed_less (h : t.is "<" = true) : listed t = parenthesis (t, true) := by
  rw [listed, h, Bool.true_or]

/-- In a list each `>` is marked. -/
lemma listed_greater (h : t.is ">" = true) : listed t = parenthesis (t, true) := by
  rw [listed, h, Bool.or_true]

/-- In a list no other token is marked. -/
lemma listed_other (h : (t.is "<" || t.is ">") = false) : listed t = parenthesis (t, false) := by
  rw [listed, h]

end Parentheses

/-- One token of open lists: it closes the last of them, or as many are open after it as the others
close, whatever waits outside. -/
lemma Closes.step {d t ts n} (h : Closes d (t :: ts) (n + 1)) :
    d = 0 ∧ n = 0 ∧ t.is ">" = true ∨
      ∃ d', Closes d' ts n ∧ ∀ outer, (listed t).nest? (List.replicate d "(" ++ outer) =
        some (List.replicate d' "(" ++ outer) := by
  cases h with
  | last ht => exact .inl ⟨rfl, rfl, ht⟩
  | inner ht h =>
    refine .inr ⟨_, h, fun outer => ?_⟩
    rw [listed_greater ht]
    exact nest?_greater ht
  | opened ht h =>
    refine .inr ⟨_, h, fun outer => ?_⟩
    rw [listed_less ht]
    exact nest?_less ht
  | passed _ ht h =>
    refine .inr ⟨_, h, fun outer => ?_⟩
    rw [listed_other ht]
    exact nest?_unmarked

/-- What closes some lists of type arguments ends with a `>`, and what stands before it closes all
of them but one. -/
lemma Closes.exists_waiting {d ts n} (h : Closes d ts n) :
    ∃ us c vs, ts = us ++ c :: vs ∧ n = us.length + 1 ∧ c.is ">" = true ∧
      waiting? (List.replicate d "(") (us.map listed) = some [] := by
  induction ts generalizing d n with
  | nil => cases h
  | cons t ts ih =>
    obtain ⟨n, rfl⟩ := Nat.exists_eq_succ_of_ne_zero (Nat.ne_of_gt h.pos)
    rcases h.step with ⟨rfl, rfl, ht⟩ | ⟨d', h, hnest⟩
    · exact ⟨[], t, ts, rfl, rfl, ht, rfl⟩
    · obtain ⟨us, c, vs, rfl, rfl, hc, hwaiting⟩ := ih h
      refine ⟨t :: us, c, vs, rfl, rfl, hc, ?_⟩
      have hnest := hnest []
      rw [List.append_nil, List.append_nil] at hnest
      rw [List.map_cons, waiting?_cons, hnest]
      exact hwaiting

/-- What stands in a list of type arguments is balanced. -/
lemma Closes.exists_balanced {ts n} (h : Closes 0 ts n) :
    ∃ us c vs, ts = us ++ c :: vs ∧ n = us.length + 1 ∧ c.is ">" = true ∧
      Balanced (us.map listed) := by
  obtain ⟨us, c, vs, rfl, rfl, hc, hw⟩ := h.exists_waiting
  exact ⟨us, c, vs, rfl, rfl, hc, balanced_iff_waiting?.2 hw⟩

/-- The lists of type arguments that are open when the next `inside` tokens are still in them: none,
or as many as these tokens close. -/
inductive Inside (ts : List Token) : (inside : Nat) → (stack : List String) → Prop where
  | outside : Inside ts 0 []
  | list {d n} :
    Closes d ts n →
    Inside ts n (List.replicate d "(" ++ ["("])

/-- All lists of type arguments that are open are closed by what follows. -/
lemma waiting?_parentheses {previous inside stack ts} (h : Inside ts inside stack) :
    waiting? stack ((ts.zip (genericBrackets previous inside ts)).map parenthesis) = some [] := by
  induction ts generalizing previous inside stack with
  | nil =>
    cases h with
    | outside => rfl
    | list h => cases h
  | cons t ts ih =>
    cases h with
    | outside =>
      simp only [genericBrackets]
      split
      case h_1 n hn =>
        have hstart := start_eq_some_iff.1 hn
        rw [List.zip_cons_cons, List.map_cons, waiting?_cons, nest?_less hstart.opens]
        exact ih (.list hstart.closes)
      case h_2 =>
        rw [List.zip_cons_cons, List.map_cons, waiting?_cons, nest?_unmarked]
        exact ih .outside
    | @list d n h =>
      obtain ⟨n, rfl⟩ := Nat.exists_eq_succ_of_ne_zero (Nat.ne_of_gt h.pos)
      rw [genericBrackets, List.zip_cons_cons, List.map_cons, waiting?_cons]
      show ((listed t).nest? _).bind _ = _
      rcases h.step with ⟨rfl, rfl, ht⟩ | ⟨d', h, hnest⟩
      · rw [listed_greater ht, List.replicate_zero, List.nil_append, nest?_greater ht]
        exact ih .outside
      · rw [hnest]
        exact ih (.list h)

/-- The brackets of type arguments are balanced. -/
lemma balanced_parentheses {ts} : Balanced (parentheses ts) :=
  balanced_iff_waiting?.2 (waiting?_parentheses .outside)

/-- At each place stands a token with its mark. -/
lemma getElem?_parentheses {ts t} {i : Nat} {marked : Bool} (ht : ts[i]? = some t)
    (hmarked : (genericBrackets none 0 ts)[i]? = some marked) :
    (parentheses ts)[i]? = some (parenthesis (t, marked)) := by
  have hflagged : (flagged ts)[i]? = some (t, marked) := List.getElem?_zip_eq_some.2 ⟨ht, hmarked⟩
  rw [parentheses, List.getElem?_map, hflagged, Option.map_some]

/-- What stands at a place is a token with its mark. -/
lemma exists_of_parentheses {ts u} {i : Nat} (h : (parentheses ts)[i]? = some u) :
    ∃ t marked, ts[i]? = some t ∧ (genericBrackets none 0 ts)[i]? = some marked ∧
      u = parenthesis (t, marked) := by
  rw [parentheses, List.getElem?_map, Option.map_eq_some_iff] at h
  obtain ⟨⟨t, marked⟩, hflagged, rfl⟩ := h
  obtain ⟨ht, hmarked⟩ := List.getElem?_zip_eq_some.1 hflagged
  exact ⟨t, marked, ht, hmarked, rfl⟩

/-- A list of type arguments holds its first bracket and the tokens up to its last one. -/
lemma Starts.holds {before t rest n} {k : Nat} (h : Starts before.getLast? t rest n) (hk : k ≤ n) :
    InArguments none (before ++ t :: rest) (before.length + k) := by
  rw [← Option.or_none (o := before.getLast?)] at h
  exact h.inArguments hk

/-- The parentheses of tokens that stand in lists of type arguments. -/
lemma exists_parentheses_eq {before mid after : List Token}
    (h : ∀ k < mid.length, InArguments none (before ++ (mid ++ after)) (before.length + k)) :
    ∃ front back, front.length = before.length ∧
      parentheses (before ++ (mid ++ after)) = front ++ (mid.map listed ++ back) := by
  have hlength : (parentheses (before ++ (mid ++ after))).length =
      before.length + (mid.length + after.length) := by
    rw [parentheses, List.length_map, ← List.length_map Prod.fst, map_fst_flagged,
      List.length_append, List.length_append]
  generalize hall : parentheses (before ++ (mid ++ after)) = all at hlength
  have hmid : (all.drop before.length).take mid.length = mid.map listed := by
    apply List.ext_getElem?
    intro k
    rw [List.getElem?_take, List.getElem?_drop, List.getElem?_map]
    split
    case isTrue hk =>
      have ht : (before ++ (mid ++ after))[before.length + k]? = some mid[k] := by
        rw [List.getElem?_append_right (Nat.le_add_right _ _), Nat.add_sub_cancel_left,
          List.getElem?_append_left hk, List.getElem?_eq_getElem hk]
      rw [← hall, getElem?_parentheses ht (genericBrackets_of_inArguments (h k hk) ht),
        List.getElem?_eq_getElem hk]
      rfl
    case isFalse hk => rw [List.getElem?_eq_none (Nat.le_of_not_lt hk), Option.map_none]
  refine ⟨all.take before.length, (all.drop before.length).drop mid.length, ?_, ?_⟩
  · rw [List.length_take, hlength]
    omega
  · rw [← hmid, List.take_append_drop, List.take_append_drop]

/-- The brackets around a list of type arguments are a pair. -/
lemma Starts.pairAt {before t rest n} (h : Starts before.getLast? t rest n) :
    PairAt (parentheses (before ++ t :: rest)) before.length (before.length + n) := by
  have hin : ∀ k ≤ n, InArguments none (before ++ t :: rest) (before.length + k) := fun _ =>
    h.holds
  obtain ⟨us, c, vs, rfl, rfl, hc, hbalanced⟩ := h.closes.exists_balanced
  have hsplit : t :: (us ++ c :: vs) = t :: (us ++ [c]) ++ vs := by simp
  rw [hsplit] at hin ⊢
  have hmid : ∀ k < (t :: (us ++ [c])).length,
      InArguments none (before ++ (t :: (us ++ [c]) ++ vs)) (before.length + k) := fun k hk => by
    rw [List.length_cons, List.length_append, List.length_singleton] at hk
    exact hin k (Nat.le_of_lt_succ hk)
  obtain ⟨front, back, hfront, hall⟩ := exists_parentheses_eq hmid
  refine ⟨front, listed t, us.map listed, listed c, back, ?_, hfront, ?_, ?_, ?_, hbalanced⟩
  · rw [hall]
    simp
  · rw [List.length_map, Nat.add_assoc]
  · rw [listed_less h.opens]
    exact opens_of_less h.opens
  · rw [listed_greater hc, listed_less h.opens, text_of_less h.opens]
    exact closes?_of_greater hc

/-- A list of type arguments that stands in no other one is the one that starts at its first
bracket. -/
lemma Outermost.exists_starts {ts i j} (h : Outermost ts i j) :
    ∃ before t rest n, ts = before ++ t :: rest ∧ Starts before.getLast? t rest n ∧
      before.length = i ∧ j = i + n := by
  obtain ⟨o, c, ho, -, hopens, -⟩ := h.pair.exists_fits
  obtain ⟨t, marked, -, hmarked, rfl⟩ := exists_of_parentheses ho
  obtain ⟨-, rfl, -⟩ := opens_parenthesis.1 hopens
  obtain ⟨-, hin⟩ := (genericBrackets_iff (.inl rfl)).1 hmarked
  obtain ⟨before, t, rest, n, rfl, hstart, hle, hi⟩ :=
    (hin.resolve_left (Nat.not_lt_zero i)).exists_starts
  rw [Option.or_none] at hstart
  have hpair := hstart.pairAt
  -- a list that starts earlier and still goes on would enclose this one
  rcases Nat.eq_or_lt_of_le hle with hfirst | hlt
  · subst hfirst
    exact ⟨before, t, rest, n, rfl, hstart, rfl, h.pair.right_unique hpair⟩
  · have hne : i ≠ before.length + n := fun e => by
      subst e
      exact hpair.not_after h.pair
    have hinside := hpair.lt_of_lt h.pair hlt (Nat.lt_of_le_of_ne hi hne)
    exact absurd ⟨hlt, hinside⟩ (h.outer _ _ hpair)

section Roles

variable {ts : List Token}

/-- What may stand among type arguments: identifiers, names of types and a few signs. -/
lemma inTypeArguments_iff {t : Token} :
    inTypeArguments t = true ↔
      t.kind = .identifier ∨ t.isKeywordIn typeKeywords = true ∨
        ∃ sign ∈ ["<", ">", ",", ".", "?", "[", "]"], t.is sign = true := by
  cases hk : t.kind <;> simp [inTypeArguments, Token.isKeywordIn, Token.is, hk]

/-- Where a role is told from a token and its mark, it is found by these. -/
lemma exists_role_iff {r : Role} {i : Nat} (q : Token → Prop)
    (h : ∀ generic t p next k, role generic t p next k = r ↔ q (parenthesis (t, generic))) :
    (∃ t, (roles ts)[i]? = some (t, r)) ↔ ∃ u, (parentheses ts)[i]? = some u ∧ q u := by
  constructor
  · rintro ⟨t, ht⟩
    obtain ⟨generic, hi, hgeneric, p, next, k, hr⟩ := getElem?_roles ht
    exact ⟨_, getElem?_parentheses hi hgeneric, (h ..).1 hr.symm⟩
  · rintro ⟨u, hu, hq⟩
    obtain ⟨t, generic, ht, hgeneric, rfl⟩ := exists_of_parentheses hu
    have hfst : ((roles ts).map Prod.fst)[i]? = some t := by rw [map_fst_roles, ht]
    rw [List.getElem?_map, Option.map_eq_some_iff] at hfst
    obtain ⟨⟨_, r'⟩, hx, rfl⟩ := hfst
    obtain ⟨generic', -, hgeneric', p, next, k, hr⟩ := getElem?_roles hx
    cases hgeneric.symm.trans hgeneric'
    obtain rfl : r' = r := hr.trans ((h ..).2 hq)
    exact ⟨_, hx⟩

/-- A token opens type arguments just if it is the first of a pair of brackets. -/
lemma exists_genericOpen_iff {i : Nat} :
    (∃ t, (roles ts)[i]? = some (t, .genericOpen)) ↔ ∃ j, PairAt (parentheses ts) i j := by
  have hrole : ∀ generic t p next k, role generic t p next k = .genericOpen ↔
      (parenthesis (t, generic)).opens = true := fun _ _ _ _ _ =>
    role_eq_genericOpen_iff.trans opens_parenthesis.symm
  rw [exists_role_iff (·.opens = true) hrole]
  constructor
  · rintro ⟨u, hu, hopens⟩
    exact balanced_parentheses.exists_closer hu hopens
  · rintro ⟨j, hpair⟩
    obtain ⟨o, _, ho, -, hopens, -⟩ := hpair.exists_fits
    exact ⟨o, ho, hopens⟩

/-- A token closes type arguments just if it is the second of a pair of brackets. -/
lemma exists_genericClose_iff {j : Nat} :
    (∃ t, (roles ts)[j]? = some (t, .genericClose)) ↔ ∃ i, PairAt (parentheses ts) i j := by
  have hrole : ∀ generic t p next k, role generic t p next k = .genericClose ↔
      (parenthesis (t, generic)).closes = true := fun _ _ _ _ _ =>
    role_eq_genericClose_iff.trans closes_parenthesis.symm
  rw [exists_role_iff (·.closes = true) hrole]
  constructor
  · rintro ⟨u, hu, hcloses⟩
    exact balanced_parentheses.exists_opener hu hcloses
  · rintro ⟨i, hpair⟩
    obtain ⟨_, c, -, hc, -, hcloses⟩ := hpair.exists_fits
    exact ⟨c, hc, closes_of_closes? hcloses⟩

end Roles

/-- The brackets of type arguments of all tokens are well formed. -/
theorem type_argument_lists_nested (ts : List Token) : ArgumentLists ts where
  counted := Positions.genericBracketsAt_eq
  angles i t ht hmarked := by
    have hflagged : (flagged ts)[i]? = some (t, true) :=
      List.getElem?_zip_eq_some.2 ⟨ht, hmarked⟩
    have hangle := is_angle_of_genericBrackets (List.mem_of_getElem? hflagged) rfl
    exact Bool.or_eq_true_iff.1 hangle
  bracketed := balanced_parentheses.bracketed
  named i j h := by
    obtain ⟨before, t, rest, n, rfl, hstart, rfl, -⟩ := h.exists_starts
    obtain ⟨p, hp, hk⟩ := (Option.any_eq_true _ _).1 hstart.named
    obtain ⟨front, rfl⟩ := List.getLast?_eq_some_iff.1 hp
    refine ⟨front.length, p, ?_, ?_, by simpa using hk⟩
    · rw [List.length_append, List.length_singleton]
    · rw [List.append_assoc, List.getElem?_append_right (Nat.le_refl _), Nat.sub_self]
      rfl
  held i j k t h hik hkj ht := by
    obtain ⟨before, o, rest, n, rfl, hstart, rfl, rfl⟩ := h.exists_starts
    obtain ⟨m, rfl⟩ := Nat.exists_eq_add_of_lt hik
    have hin : InArguments none (before ++ o :: rest) (before.length + (m + 1)) :=
      hstart.holds (by omega)
    exact ⟨inTypeArguments_iff.1 (hin.inTypeArguments ht), genericBrackets_of_inArguments hin ht⟩
  opened _ := exists_genericOpen_iff
  closed _ := exists_genericClose_iff
  own i j k l hij hkl := by
    constructor
    · rintro rfl
      exact hij.right_unique hkl
    · rintro rfl
      exact hij.left_unique hkl

/-- What is tried at the first `<` leaves no marks, since `(` cannot stand in type arguments. -/
example : (tokenize false "a < f(List<Map<int>>.of)").toOption.map (genericBrackets none 0) =
    some [false, false, false, false, false, true, false, true, false, true, true, false, false,
      false] := by
  decide +kernel

end SharpSmith.Fragment
