import SharpSmith.Fragment.Statement
import SharpSmith.Proofs.Delimiters
import SharpSmith.Proofs.Outcome

/-!
# The grammar of statements

`Stmt` is the language of single statements, given by its rules. Reading a statement accepts
exactly this language: `afterStatement_sound` finds a derivation for whatever is read, and
`Shape.afterStatement` reads whatever is derived. An `else` is read by the innermost `if` that can
take it, so a derivation that gives it to an outer one is first rearranged: in a `Shape` each
`else` belongs to the innermost `if`. Reading is a recursion on a budget, and
`afterStatement_budget` says that the budget decides nothing once it covers the tokens.
-/

namespace SharpSmith.Statement

open Fragment

/-- A run of groups and of tokens other than `;`. -/
inductive Run : List Token → Prop where
  | nil : Run []
  | token {t ts} :
    t.opens = false →
    t.closes = false →
    t.is ";" = false →
    Run ts →
    Run (t :: ts)
  | group {opener g ts} :
    Group opener g →
    Run ts →
    Run (g ++ ts)

/-- Whether tokens start like a statement that is not a simple one. -/
def startsForm : List Token → Bool
  | [] => false
  | t :: ts =>
    t.is "\x7b" || t.is ";" || t.isKeywordIn headed || t.isKeyword "do" || t.isKeyword "try" ||
      (t.isKeyword "using" && startsAt "(" ts) || (t.isKeywordIn blockModes && startsAt "\x7b" ts)

/-- A filter of a `catch` clause: `when` and a group in parentheses. -/
inductive Filter : List Token → Prop where
  | mk {t g} :
    t.text = "when" →
    Group "(" g →
    Filter (t :: g)

/-- A `catch` clause, whose header and filter may be left out. -/
inductive Catch : List Token → Prop where
  | mk {t header filter body} :
    t.isKeyword "catch" = true →
    header = [] ∨ Group "(" header →
    filter = [] ∨ Filter filter →
    Group "\x7b" body →
    Catch (t :: header ++ filter ++ body)

/-- Any number of `catch` clauses. -/
inductive Catches : List Token → Prop where
  | nil : Catches []
  | cons {c cs} :
    Catch c →
    Catches cs →
    Catches (c ++ cs)

/-- A `finally` clause. -/
inductive Finally : List Token → Prop where
  | mk {t body} :
    t.isKeyword "finally" = true →
    Group "\x7b" body →
    Finally (t :: body)

/-- The statements that hold no other statement outside of groups. -/
inductive Basic : List Token → Prop where
  | block {body} :
    Group "\x7b" body →
    Basic body
  | empty {t} :
    t.is ";" = true →
    Basic [t]
  | switch {t header body} :
    t.isKeyword "switch" = true →
    Group "(" header →
    Group "\x7b" body →
    Basic (t :: header ++ body)
  | handled {t body catches last} :
    t.isKeyword "try" = true →
    Group "\x7b" body →
    Catches catches →
    last = [] ∨ Finally last →
    catches ++ last ≠ [] →
    Basic (t :: body ++ catches ++ last)
  | mode {t body} :
    t.isKeywordIn blockModes = true →
    Group "\x7b" body →
    Basic (t :: body)
  | simple {ts t} :
    ts ≠ [] →
    Run ts →
    startsForm ts = false →
    operandFault? ts = none →
    t.is ";" = true →
    Basic (ts ++ [t])

/-- The words that start a statement with a header and a body, apart from `if` and `switch`. -/
def loops : List String :=
  ["while", "for", "foreach", "lock", "fixed", "using"]

/-- Statements. -/
inductive Stmt : List Token → Prop where
  | basic {ts} :
    Basic ts →
    Stmt ts
  | ifThen {t header body} :
    t.isKeyword "if" = true →
    Group "(" header →
    Stmt body →
    Stmt (t :: header ++ body)
  | ifElse {t header body e other} :
    t.isKeyword "if" = true →
    Group "(" header →
    Stmt body →
    e.isKeyword "else" = true →
    Stmt other →
    Stmt (t :: header ++ (body ++ e :: other))
  | loop {t header body} :
    t.isKeywordIn loops = true →
    Group "(" header →
    Stmt body →
    Stmt (t :: header ++ body)
  | doWhile {t body w condition e} :
    t.isKeyword "do" = true →
    Stmt body →
    w.isKeyword "while" = true →
    Group "(" condition →
    e.is ";" = true →
    Stmt (t :: body ++ w :: condition ++ [e])

/-- Reserved words do not delimit. -/
lemma opens_of_isKeyword {t word} (h : Token.isKeyword t word = true) : t.opens = false := by
  simp only [Token.isKeyword, Bool.and_eq_true, beq_iff_eq] at h
  exact opens_of_kind (by simp [h.1])

/-- Lists of reserved words do not hold delimiters. -/
lemma opens_of_isKeywordIn {t words} (h : Token.isKeywordIn t words = true) :
    t.opens = false := by
  simp only [Token.isKeywordIn, Bool.and_eq_true, beq_iff_eq] at h
  exact opens_of_kind (by simp [h.1])

/-- The words that start a statement with a header and a body are `switch`, `if` and the ones of
`loops`. -/
lemma isKeywordIn_loops {t : Token} {ts} (hswitch : ¬t.isKeyword "switch" = true)
    (hif : ¬t.isKeyword "if" = true)
    (h : (t.isKeywordIn headed || t.isKeyword "using" && startsAt "(" ts) = true) :
    t.isKeywordIn loops = true := by
  simp only [Token.isKeyword, Token.isKeywordIn, Bool.or_eq_true, Bool.and_eq_true,
    beq_iff_eq] at *
  rcases h with ⟨hk, h⟩ | ⟨⟨hk, h⟩, -⟩
  · simp only [headed, List.contains_eq_mem, List.mem_cons, List.not_mem_nil, or_false,
      decide_eq_true_eq] at h
    rcases h with h | h | h | h | h | h | h <;> simp_all [loops]
  · simp [hk, h, loops]

/-- A group that has to start with a given opener is passed over. -/
lemma group_append {size opener g rest} (h : Group opener g) :
    group size opener (g ++ rest) = .ok rest := by
  cases h with
  | mk hi ho hc ht =>
    rw [List.cons_append, group, if_pos hi, afterGroup_group (.mk hi ho hc ht)]

/-- What is passed over as a group is one. -/
lemma exists_of_group {size opener ts rest} (hb : Balanced ts)
    (ho : opener = "(" ∨ opener = "\x7b") (h : group size opener ts = .ok rest) :
    ∃ g, ts = g ++ rest ∧ Group opener g ∧ Balanced rest := by
  unfold group at h
  split at h
  case h_1 => cases h
  case h_2 t ts =>
    split at h
    case isFalse => cases h
    case isTrue hi =>
      cases h
      have hopens : t.opens = true := by
        rcases ho with rfl | rfl <;> simp [Token.opens, hi]
      obtain ⟨g, us, rfl, hg, hu⟩ := hb.exists_group hi hopens
      rw [afterGroup_group hg]
      exact ⟨t :: g, rfl, hg, hu⟩

/-- A `catch` clause is passed over part by part. -/
lemma afterCatch_eq {size ts} :
    afterCatch size ts =
      (if startsAt "(" ts then group size "(" ts else .ok ts) >>= fun us =>
        (if us.head?.any (·.text == "when") then group size "(" us.tail else .ok us) >>=
          group size "\x7b" := by
  unfold afterCatch
  have hfilter : ∀ us : List Token,
      (if us.head?.any (·.text == "when") then group size "(" us.tail >>= group size "\x7b"
        else pure us >>= group size "\x7b") =
      (if us.head?.any (·.text == "when") then group size "(" us.tail else .ok us) >>=
          group size "\x7b" := by
    intro us
    split <;> rfl
  simp only [hfilter]
  split <;> rfl

/-- What is passed over as a `catch` clause is one. -/
lemma exists_of_afterCatch {size t ts rest} (hb : Balanced ts) (ht : t.isKeyword "catch" = true)
    (h : afterCatch size ts = .ok rest) :
    ∃ c, t :: ts = c ++ rest ∧ Catch c ∧ Balanced rest := by
  rw [afterCatch_eq] at h
  simp only [bind_eq_ok_iff] at h
  obtain ⟨us, hu, vs, hv, h⟩ := h
  obtain ⟨header, rfl, hheader, hbu⟩ :
      ∃ header, ts = header ++ us ∧ (header = [] ∨ Group "(" header) ∧ Balanced us := by
    split at hu
    case isTrue =>
      obtain ⟨g, e, hg, hbu⟩ := exists_of_group hb (.inl rfl) hu
      exact ⟨g, e, .inr hg, hbu⟩
    case isFalse =>
      cases hu
      exact ⟨[], rfl, .inl rfl, hb⟩
  obtain ⟨filter, rfl, hfilter, hbv⟩ :
      ∃ filter, us = filter ++ vs ∧ (filter = [] ∨ Filter filter) ∧ Balanced vs := by
    split at hv
    case isTrue hw =>
      cases us with
      | nil => cases hw
      | cons n us =>
        have hwhen : n.text = "when" := by simpa using hw
        have hn : n.opens = false := by simp [Token.opens, Token.is, hwhen]
        obtain ⟨g, rfl, hg, hbv⟩ := exists_of_group (hbu.tail hn) (.inl rfl) hv
        exact ⟨n :: g, rfl, .inr (.mk hwhen hg), hbv⟩
    case isFalse =>
      cases hv
      exact ⟨[], rfl, .inl rfl, hbu⟩
  obtain ⟨body, rfl, hbody, hr⟩ := exists_of_group hbv (.inr rfl) h
  exact ⟨t :: header ++ filter ++ body, by simp, .mk ht hheader hfilter hbody, hr⟩

/-- What is passed over as `catch` clauses is made of them. -/
lemma exists_of_afterCatches {size handled budget ts rest} {handled' : Bool} (hb : Balanced ts)
    (h : afterCatches size handled budget ts = .ok (rest, handled')) :
    ∃ cs, ts = cs ++ rest ∧ Catches cs ∧ Balanced rest ∧
      (handled' = true → handled = true ∨ cs ≠ []) := by
  induction budget generalizing handled ts with
  | zero =>
    cases h
    exact ⟨[], rfl, .nil, hb, .inl⟩
  | succ budget ih =>
    rw [afterCatches] at h
    split at h
    case isFalse =>
      cases h
      exact ⟨[], rfl, .nil, hb, .inl⟩
    case isTrue hc =>
      cases ts with
      | nil => cases hc
      | cons t ts =>
        have hc : t.isKeyword "catch" = true := by simpa [startsWith] using hc
        obtain ⟨us, hu, h⟩ := bind_eq_ok_iff.1 h
        obtain ⟨c, e, hcatch, hbu⟩ :=
          exists_of_afterCatch (hb.tail (opens_of_isKeyword hc)) hc hu
        obtain ⟨cs, rfl, hcs, hbr, -⟩ := ih hbu h
        refine ⟨c ++ cs, by rw [e, List.append_assoc], .cons hcatch hcs, hbr, fun _ => .inr ?_⟩
        cases hcatch with
        | mk => simp

/-- What is passed over after `try` makes a statement with it. -/
lemma exists_of_afterTry {size t ts rest} (hb : Balanced ts) (ht : t.isKeyword "try" = true)
    (h : afterTry size ts = .ok rest) :
    ∃ s, t :: ts = s ++ rest ∧ Basic s ∧ Balanced rest := by
  simp only [afterTry, bind_eq_ok_iff] at h
  obtain ⟨us, hu, ⟨vs, handled⟩, hv, h⟩ := h
  obtain ⟨body, rfl, hbody, hbu⟩ := exists_of_group hb (.inr rfl) hu
  obtain ⟨catches, rfl, hcatches, hbv, hhandled⟩ := exists_of_afterCatches hbu hv
  dsimp only at h
  split at h
  case isTrue hf =>
    cases vs with
    | nil => cases hf
    | cons f vs =>
      have hf : f.isKeyword "finally" = true := by simpa [startsWith] using hf
      obtain ⟨last, rfl, hlast, hr⟩ :=
        exists_of_group (hbv.tail (opens_of_isKeyword hf)) (.inr rfl) h
      exact ⟨t :: body ++ catches ++ f :: last, by simp,
        .handled ht hbody hcatches (.inr (.mk hf hlast)) (by simp), hr⟩
  case isFalse =>
    split at h
    case isFalse => cases h
    case isTrue hh =>
      cases h
      have hne : catches ≠ [] := (hhandled hh).resolve_left (by simp)
      exact ⟨t :: body ++ catches ++ [], by simp,
        .handled ht hbody hcatches (.inl rfl) (by simpa using hne), hbv⟩

/-- The tokens before the first `;` outside of groups are a run. -/
lemma run_of_cutAtSemicolon? {ts before semicolon after} (hb : Balanced ts)
    (h : cutAtSemicolon? 0 ts = some (before, semicolon, after)) :
    ts = before ++ semicolon :: after ∧ Run before ∧ semicolon.is ";" = true ∧
      Balanced after := by
  induction hb generalizing before with
  | nil => cases h
  | @token t ts ho hc hb ih =>
    rw [cutAtSemicolon?] at h
    cases hs : t.is ";" with
    | true =>
      rw [if_pos (by simp [hs])] at h
      cases h
      exact ⟨rfl, .nil, hs, hb⟩
    | false =>
      rw [if_neg (by simp [hs])] at h
      simp only [ho, hc, Bool.false_eq_true, if_false] at h
      obtain ⟨⟨before, _, _⟩, hcut, e⟩ := Option.map_eq_some_iff.1 h
      cases e
      obtain ⟨rfl, hrun, hsemi, hafter⟩ := ih hcut
      exact ⟨rfl, .token ho hc hs hrun, hsemi, hafter⟩
  | @group o ts c us ho hc hts hus _ ih =>
    have hg : Group o.text (o :: (ts ++ [c])) := .mk (is_text_of_opens ho) ho hc hts
    rw [List.append_cons, ← List.cons_append, cutAtSemicolon?_group hg] at h
    obtain ⟨⟨before, _, _⟩, hcut, e⟩ := Option.map_eq_some_iff.1 h
    cases e
    obtain ⟨rfl, hrun, hsemi, hafter⟩ := ih hcut
    exact ⟨by simp, .group hg hrun, hsemi, hafter⟩

/-- What is passed over as a simple statement is one. -/
lemma exists_of_afterSimple {size t ts rest} (hb : Balanced (t :: ts))
    (hf : startsForm (t :: ts) = false) (h : afterSimple size (t :: ts) = .ok rest) :
    ∃ s, t :: ts = s ++ rest ∧ Basic s ∧ Balanced rest := by
  unfold afterSimple at h
  split at h
  case h_2 => cases h
  case h_1 before semicolon after hcut =>
    split at h
    case h_1 => cases h
    case h_2 hop =>
      cases h
      obtain ⟨e, hrun, hsemi, hr⟩ := run_of_cutAtSemicolon? hb hcut
      refine ⟨before ++ [semicolon], by rw [e]; simp, ?_, hr⟩
      cases before with
      | nil =>
        obtain ⟨rfl, -⟩ := List.cons.inj e
        simp [startsForm, hsemi] at hf
      | cons t' before =>
        obtain ⟨rfl, rfl⟩ := List.cons.inj e
        refine .simple (by simp) hrun ?_ hop hsemi
        -- what follows the first token is the same, or it is the `;`, which starts no group
        cases before with
        | cons => exact hf
        | nil =>
          simp only [startsForm, Bool.or_eq_false_iff] at hf
          simp [startsForm, startsAt, hf]

/-- What is passed over at the end of a `do` statement is its condition. -/
lemma exists_of_afterDoBody {size ts rest} (hb : Balanced ts)
    (h : afterDoBody size ts = .ok rest) :
    ∃ w g e, ts = w :: g ++ [e] ++ rest ∧ w.isKeyword "while" = true ∧ Group "(" g ∧
      e.is ";" = true ∧ Balanced rest := by
  unfold afterDoBody at h
  cases ts with
  | nil => cases h
  | cons w ts =>
    cases hw : w.isKeyword "while" with
    | false => simp [startsWith, hw] at h; cases h
    | true =>
      simp only [startsWith, List.head?_cons, Option.any_some, hw, List.tail_cons, Bool.not_true,
        Bool.false_eq_true, if_false] at h
      rw [bind_eq_ok_iff] at h
      obtain ⟨us, hu, h⟩ := h
      obtain ⟨g, rfl, hg, hbu⟩ := exists_of_group (hb.tail (opens_of_isKeyword hw)) (.inl rfl) hu
      cases us with
      | nil => cases h
      | cons e us =>
        cases he : e.is ";" with
        | false => simp [startsAt, he] at h; cases h
        | true =>
          simp only [startsAt, List.head?_cons, Option.any_some, he, Bool.not_true,
            Bool.false_eq_true, if_false] at h
          cases h
          exact ⟨w, g, e, by simp, hw, hg, he, hbu.tail (of_is_semicolon he).1⟩

/-- What is passed over as a statement is one. -/
theorem afterStatement_sound {size budget ts rest} (hb : Balanced ts)
    (h : afterStatement size budget ts = .ok rest) :
    ∃ s, ts = s ++ rest ∧ Stmt s ∧ Balanced rest := by
  induction budget generalizing ts rest with
  | zero => cases h
  | succ budget ih =>
    cases ts with
    | nil => cases h
    | cons t ts =>
      have hbt : ∀ word, t.isKeyword word = true → Balanced ts := fun _ hw =>
        hb.tail (opens_of_isKeyword hw)
      rw [afterStatement] at h
      split at h
      case isTrue ht =>
        cases h
        obtain ⟨g, us, rfl, hg, hu⟩ := hb.exists_group ht (by simp [Token.opens, ht])
        rw [afterGroup_group hg]
        exact ⟨t :: g, rfl, .basic (.block hg), hu⟩
      split at h
      case isTrue ht =>
        cases h
        exact ⟨[t], rfl, .basic (.empty ht), hb.tail (of_is_semicolon ht).1⟩
      split at h
      case isTrue ht =>
        rw [bind_eq_ok_iff] at h
        obtain ⟨us, hu, h⟩ := h
        obtain ⟨header, rfl, hheader, hbu⟩ := exists_of_group (hbt _ ht) (.inl rfl) hu
        obtain ⟨body, rfl, hbody, hr⟩ := exists_of_group hbu (.inr rfl) h
        exact ⟨t :: header ++ body, by simp, .basic (.switch ht hheader hbody), hr⟩
      split at h
      case isTrue ht =>
        simp only [bind_eq_ok_iff] at h
        obtain ⟨us, hu, vs, hv, h⟩ := h
        obtain ⟨header, rfl, hheader, hbu⟩ := exists_of_group (hbt _ ht) (.inl rfl) hu
        obtain ⟨body, rfl, hbody, hbv⟩ := ih hbu hv
        split at h
        case isFalse =>
          cases h
          exact ⟨t :: header ++ body, by simp, .ifThen ht hheader hbody, hbv⟩
        case isTrue he =>
          cases vs with
          | nil => cases he
          | cons e vs =>
            have hword : e.isKeyword "else" = true := by simpa [startsWith] using he
            obtain ⟨other, rfl, hother, hr⟩ := ih (hbv.tail (opens_of_isKeyword hword)) h
            exact ⟨t :: header ++ (body ++ e :: other), by simp,
              .ifElse ht hheader hbody hword hother, hr⟩
      split at h
      case isTrue hswitch hif ht =>
        have hloop : t.isKeywordIn loops = true := isKeywordIn_loops hswitch hif ht
        rw [bind_eq_ok_iff] at h
        obtain ⟨us, hu, h⟩ := h
        obtain ⟨header, rfl, hheader, hbu⟩ :=
          exists_of_group (hb.tail (opens_of_isKeywordIn hloop)) (.inl rfl) hu
        obtain ⟨body, rfl, hbody, hr⟩ := ih hbu h
        exact ⟨t :: header ++ body, by simp, .loop hloop hheader hbody, hr⟩
      split at h
      case isTrue ht =>
        rw [bind_eq_ok_iff] at h
        obtain ⟨us, hu, h⟩ := h
        obtain ⟨body, rfl, hbody, hbu⟩ := ih (hbt _ ht) hu
        obtain ⟨w, g, e, rfl, hw, hg, he, hr⟩ := exists_of_afterDoBody hbu h
        exact ⟨t :: body ++ w :: g ++ [e], by simp, .doWhile ht hbody hw hg he, hr⟩
      split at h
      case isTrue ht =>
        obtain ⟨s, e, hs, hr⟩ := exists_of_afterTry (hbt _ ht) ht h
        exact ⟨s, e, .basic hs, hr⟩
      split at h
      case isTrue ht =>
        simp only [Bool.and_eq_true] at ht
        obtain ⟨body, rfl, hbody, hr⟩ :=
          exists_of_group (hb.tail (opens_of_isKeywordIn ht.1)) (.inr rfl) h
        exact ⟨t :: body, rfl, .basic (.mode ht.1 hbody), hr⟩
      case isFalse h1 h2 h3 h4 h5 h6 h7 h8 =>
        have hf : startsForm (t :: ts) = false := by
          simp only [Bool.or_eq_true, not_or, Bool.not_eq_true] at h1 h2 h5 h6 h7 h8
          simp [startsForm, h1, h2, h5.1, h5.2, h6, h7, h8]
        obtain ⟨s, e, hs, hr⟩ := exists_of_afterSimple hb hf h
        exact ⟨s, e, .basic hs, hr⟩

/-- Statements whose `else`s belong to the innermost `if` that can take them. One that is `closed`
does not take an `else` that follows it. -/
inductive Shape : (closed : Bool) → List Token → Prop where
  | basic {ts} :
    Basic ts →
    Shape true ts
  | ifThen {closed t header body} :
    t.isKeyword "if" = true →
    Group "(" header →
    Shape closed body →
    Shape false (t :: header ++ body)
  | ifElse {closed t header body e other} :
    t.isKeyword "if" = true →
    Group "(" header →
    Shape true body →
    e.isKeyword "else" = true →
    Shape closed other →
    Shape closed (t :: header ++ (body ++ e :: other))
  | loop {closed t header body} :
    t.isKeywordIn loops = true →
    Group "(" header →
    Shape closed body →
    Shape closed (t :: header ++ body)
  | doWhile {closed t body w condition e} :
    t.isKeyword "do" = true →
    Shape closed body →
    w.isKeyword "while" = true →
    Group "(" condition →
    e.is ";" = true →
    Shape true (t :: body ++ w :: condition ++ [e])

/-- A statement that is not closed takes an `else` that follows it, and what comes after that. -/
lemma Shape.append_else {closed closed' s e other} (h : Shape closed s) (hc : closed = false)
    (he : e.isKeyword "else" = true) (ho : Shape closed' other) :
    ∃ closed, Shape closed (s ++ e :: other) := by
  induction h with
  | basic => cases hc
  | doWhile => cases hc
  | @ifThen closed t header body ht hheader hbody ih =>
    cases closed with
    | true =>
      have := Shape.ifElse ht hheader hbody he ho
      exact ⟨closed', by simpa using this⟩
    | false =>
      -- the `else` goes further inside
      obtain ⟨_, hs⟩ := ih rfl
      have := Shape.ifThen ht hheader hs
      exact ⟨false, by simpa using this⟩
  | ifElse ht hheader hbody he' _ _ ih =>
    obtain ⟨c, hs⟩ := ih hc
    have := Shape.ifElse ht hheader hbody he' hs
    exact ⟨c, by simpa using this⟩
  | loop ht hheader _ ih =>
    obtain ⟨c, hs⟩ := ih hc
    have := Shape.loop ht hheader hs
    exact ⟨c, by simpa using this⟩

/-- Every statement can be derived with each `else` at the innermost `if`. -/
lemma Stmt.exists_shape {s} (h : Stmt s) : ∃ closed, Shape closed s := by
  induction h with
  | basic h => exact ⟨true, .basic h⟩
  | ifThen ht hheader _ ih =>
    obtain ⟨_, hs⟩ := ih
    exact ⟨false, .ifThen ht hheader hs⟩
  | ifElse ht hheader _ he _ ih₁ ih₂ =>
    obtain ⟨closed, hs⟩ := ih₁
    obtain ⟨c, ho⟩ := ih₂
    cases closed with
    | true => exact ⟨c, .ifElse ht hheader hs he ho⟩
    | false =>
      obtain ⟨_, hs⟩ := hs.append_else rfl he ho
      exact ⟨false, .ifThen ht hheader hs⟩
  | loop ht hheader _ ih =>
    obtain ⟨c, hs⟩ := ih
    exact ⟨c, .loop ht hheader hs⟩
  | doWhile ht _ hw hg he ih =>
    obtain ⟨_, hs⟩ := ih
    exact ⟨true, .doWhile ht hs hw hg he⟩

/-- What may follow a statement: nothing that it could go on with. -/
structure Follows (closed : Bool) (rest : List Token) : Prop where
  noCatch : startsWith "catch" rest = false
  noFinally : startsWith "finally" rest = false
  noElse : closed = false → startsWith "else" rest = false

/-- A reserved word is the first word of what it starts. -/
lemma startsWith_of_isKeyword {t ts word} (h : Token.isKeyword t word = true) (other : String) :
    startsWith other (t :: ts) = (word == other) := by
  simp only [Token.isKeyword, Bool.and_eq_true, beq_iff_eq] at h
  simp [startsWith, Token.isKeyword, h]

/-- A group starts with its opener. -/
lemma head?_group {opener g} (rest : List Token) (h : Group opener g) :
    ∃ o, (g ++ rest).head? = some o ∧ o.kind = .punctuator ∧ o.text = opener := by
  cases h with
  | mk hi => exact ⟨_, rfl, by simpa [Token.is] using hi⟩

/-- A group starts with its opener and with no other sign. -/
lemma startsAt_group {opener g rest} (h : Group opener g) (text : String) :
    startsAt text (g ++ rest) = (opener == text) := by
  obtain ⟨o, ho, hk, ht⟩ := head?_group rest h
  simp [startsAt, ho, Token.is, hk, ht]

/-- A run is cut off at the `;` that follows it. -/
lemma Run.cutAtSemicolon? {ts t rest} (h : Run ts) (ht : t.is ";" = true) :
    cutAtSemicolon? 0 (ts ++ t :: rest) = some (ts, t, rest) := by
  induction h with
  | nil => simp [Fragment.cutAtSemicolon?, ht]
  | token ho hc hs _ ih => simp [Fragment.cutAtSemicolon?, ho, hc, hs, ih]
  | group hg _ ih => rw [List.append_assoc, cutAtSemicolon?_group hg, ih]; rfl

/-- A `catch` clause is passed over. -/
lemma Catch.afterCatch {size t c rest} (h : Catch (t :: c)) :
    afterCatch size (c ++ rest) = .ok rest := by
  generalize e : t :: c = all at h
  cases h with
  | @mk t header filter body ht hheader hfilter hbody =>
    obtain ⟨rfl, rfl⟩ := List.cons.inj e
    rw [afterCatch_eq]
    obtain ⟨b, hb, -, hbt⟩ := head?_group rest hbody
    have hfilter' : (if (filter ++ (body ++ rest)).head?.any (·.text == "when") then
        group size "(" (filter ++ (body ++ rest)).tail else .ok (filter ++ (body ++ rest))) =
        .ok (body ++ rest) := by
      rcases hfilter with rfl | ⟨hn, hg⟩
      · simp [hb, hbt]
      · simp [hn, group_append hg]
    have hheader' : (if startsAt "(" (header ++ (filter ++ (body ++ rest))) then
        group size "(" (header ++ (filter ++ (body ++ rest)))
        else .ok (header ++ (filter ++ (body ++ rest)))) = .ok (filter ++ (body ++ rest)) := by
      rcases hheader with rfl | hg
      · rcases hfilter with rfl | ⟨hn, -⟩
        · simp [startsAt_group hbody]
        · simp [startsAt, Token.is, hn]
      · simp [startsAt_group hg, group_append hg]
    show (_ : Except Located (List Token)) = _
    simp only [List.append_eq, List.append_assoc, hheader', hfilter', ok_bind, group_append hbody]

/-- Clauses are passed over up to what is no `catch`. -/
lemma Catches.afterCatches {size handled budget cs rest} (h : Catches cs)
    (hb : cs.length ≤ budget) (hr : startsWith "catch" rest = false) :
    afterCatches size handled budget (cs ++ rest) = .ok (rest, handled || !cs.isEmpty) := by
  induction h generalizing handled budget with
  | nil => cases budget <;> simp [Statement.afterCatches, hr]
  | @cons c cs hc _ ih =>
    cases c with
    | nil => cases hc
    | cons t c =>
      cases budget with
      | zero => simp at hb
      | succ budget =>
        have hword : t.isKeyword "catch" = true := by
          cases hc with
          | mk ht => exact ht
        have hle : cs.length ≤ budget := by
          simp only [List.cons_append, List.length_cons, List.length_append] at hb
          omega
        have hstep : afterCatch size (c ++ (cs ++ rest)) = _ := hc.afterCatch
        rw [Statement.afterCatches]
        simp [startsWith, hword, hstep, ok_bind, ih hle]

/-- What follows `try` is passed over. -/
lemma afterTry_append {size body catches last rest} (hbody : Group "\x7b" body)
    (hcatches : Catches catches) (hlast : last = [] ∨ Finally last) (hne : catches ++ last ≠ [])
    (hr : Follows true rest) :
    afterTry size (body ++ (catches ++ (last ++ rest))) = .ok rest := by
  have hstop : startsWith "catch" (last ++ rest) = false := by
    rcases hlast with rfl | ⟨hf, -⟩
    · exact hr.noCatch
    · rw [List.cons_append, startsWith_of_isKeyword hf]
      decide
  have hpassed : afterCatches size false (catches ++ (last ++ rest)).length _ = _ :=
    hcatches.afterCatches (by simp) hstop
  unfold afterTry
  rw [group_append hbody, ok_bind, hpassed, ok_bind]
  rcases hlast with rfl | ⟨hf, hg⟩
  · have hc : catches ≠ [] := by simpa using hne
    simp [hr.noFinally, hc]
    rfl
  · simp [startsWith, hf, group_append hg]

/-- Statements that hold no others are passed over. -/
lemma Basic.afterStatement {size budget s rest} (h : Basic s) (hr : Follows true rest) :
    afterStatement size (budget + 1) (s ++ rest) = .ok rest := by
  cases h with
  | block hbody =>
    cases hbody with
    | mk hi ho hc ht =>
      rw [List.cons_append, Statement.afterStatement, if_pos hi,
        afterGroup_group (.mk hi ho hc ht)]
  | @empty t ht =>
    have hn : t.is "\x7b" = false := by
      simp only [Token.is, Bool.and_eq_true, beq_iff_eq] at ht
      simp [Token.is, ht.2]
    simp [Statement.afterStatement, ht, hn]
  | switch ht hheader hbody =>
    simp only [Token.isKeyword, Bool.and_eq_true, beq_iff_eq] at ht
    simp [Statement.afterStatement, Token.is, Token.isKeyword, ht, group_append hheader,
      group_append hbody, ok_bind]
  | handled ht hbody hcatches hlast hne =>
    simp only [Token.isKeyword, Bool.and_eq_true, beq_iff_eq] at ht
    simp [Statement.afterStatement, Token.is, Token.isKeyword, Token.isKeywordIn, headed, ht,
      afterTry_append hbody hcatches hlast hne hr]
  | mode ht hbody =>
    simp only [Token.isKeywordIn, Bool.and_eq_true, beq_iff_eq, blockModes,
      List.contains_eq_mem, List.mem_cons, List.not_mem_nil, or_false, decide_eq_true_eq] at ht
    obtain ⟨hk, ht⟩ := ht
    rcases ht with ht | ht | ht <;>
      simp [Statement.afterStatement, Token.is, Token.isKeyword, Token.isKeywordIn, headed,
        blockModes, hk, ht, startsAt_group hbody, group_append hbody]
  | @simple ts t hne hrun hf hop ht =>
    cases ts with
    | nil => exact absurd rfl hne
    | cons u us =>
      have hcut : Fragment.cutAtSemicolon? 0 (u :: us ++ t :: rest) = _ := hrun.cutAtSemicolon? ht
      have hnext : ∀ text, text ≠ ";" →
          startsAt text (us ++ [t] ++ rest) = startsAt text us := by
        intro text hn
        cases us with
        | cons => rfl
        | nil =>
          simp only [Token.is, Bool.and_eq_true, beq_iff_eq] at ht
          simp [startsAt, Token.is, ht.2, hn.symm]
      simp only [startsForm, Bool.or_eq_false_iff] at hf
      obtain ⟨⟨⟨⟨⟨⟨h1, h2⟩, h3⟩, h4⟩, h5⟩, h6⟩, h7⟩ := hf
      have hswitch : u.isKeyword "switch" = false ∧ u.isKeyword "if" = false := by
        simp only [Token.isKeywordIn, headed, List.contains_eq_mem, List.mem_cons,
          List.not_mem_nil, or_false, Bool.and_eq_false_imp, beq_iff_eq, decide_eq_false_iff_not,
          not_or] at h3
        simp only [Token.isKeyword, Bool.and_eq_false_imp, beq_iff_eq, beq_eq_false_iff_ne]
        exact ⟨fun hk => (h3 hk).2.2.2.2.2.2, fun hk => (h3 hk).1⟩
      have hsimple : afterSimple size (u :: (us ++ [t] ++ rest)) = .ok rest := by
        unfold afterSimple
        rw [List.append_assoc, List.singleton_append, ← List.cons_append, hcut]
        simp [hop]
      rw [List.cons_append, List.cons_append, Statement.afterStatement, if_neg (by simp [h1]),
        if_neg (by simp [h2]), if_neg (by simp [hswitch]), if_neg (by simp [hswitch]),
        if_neg (by rw [hnext _ (by decide)]; simp [h3, h6]), if_neg (by simp [h4]),
        if_neg (by simp [h5]), if_neg (by rw [hnext _ (by decide)]; simp [h7]), hsimple]

/-- A `do` statement is passed over from its body on. -/
lemma afterDoBody_append {size w condition e rest} (hw : w.isKeyword "while" = true)
    (hg : Group "(" condition) (he : e.is ";" = true) :
    afterDoBody size (w :: (condition ++ e :: rest)) = .ok rest := by
  unfold afterDoBody
  simp [startsWith, startsAt, hw, he, group_append hg, ok_bind]
  rfl

/-- No statement is empty. -/
lemma Stmt.ne_nil {s} (h : Stmt s) : s ≠ [] := by
  cases h with
  | basic h =>
    cases h with
    | block h => cases h; simp
    | _ => simp
  | _ => simp

/-- A derived statement is passed over when nothing follows that it could go on with. -/
theorem Shape.afterStatement {size closed budget s rest} (h : Shape closed s)
    (hb : s.length ≤ budget) (hr : Follows closed rest) :
    afterStatement size budget (s ++ rest) = .ok rest := by
  induction h generalizing budget rest with
  | @basic s h =>
    cases budget with
    | succ budget => exact h.afterStatement hr
    | zero => exact absurd (List.length_eq_zero_iff.1 (Nat.le_zero.1 hb)) (Stmt.basic h).ne_nil
  | @ifThen closed t header body ht hheader _ ih =>
    simp only [List.cons_append, List.length_cons, List.length_append] at hb
    obtain ⟨budget, rfl⟩ := Nat.exists_eq_succ_of_ne_zero (n := budget) (by omega)
    have hbody : Statement.afterStatement size budget (body ++ rest) = .ok rest :=
      ih (by omega) ⟨hr.noCatch, hr.noFinally, fun _ => hr.noElse rfl⟩
    simp only [Token.isKeyword, Bool.and_eq_true, beq_iff_eq] at ht
    simp [Statement.afterStatement, Token.is, Token.isKeyword, ht, group_append hheader, ok_bind,
      hbody, hr.noElse rfl]
    rfl
  | @ifElse closed t header body e other ht hheader _ he _ ih₁ ih₂ =>
    simp only [List.cons_append, List.length_cons, List.length_append] at hb
    obtain ⟨budget, rfl⟩ := Nat.exists_eq_succ_of_ne_zero (n := budget) (by omega)
    have hbody : Statement.afterStatement size budget (body ++ e :: (other ++ rest)) = .ok _ :=
      ih₁ (by omega) ⟨by rw [startsWith_of_isKeyword he]; decide,
        by rw [startsWith_of_isKeyword he]; decide, by simp⟩
    have hother : Statement.afterStatement size budget (other ++ rest) = .ok rest :=
      ih₂ (by omega) hr
    simp only [Token.isKeyword, Bool.and_eq_true, beq_iff_eq] at ht
    simp [Statement.afterStatement, Token.is, Token.isKeyword, ht, group_append hheader, ok_bind,
      hbody, startsWith_of_isKeyword he, hother]
  | @loop closed t header body ht hheader _ ih =>
    simp only [List.cons_append, List.length_cons, List.length_append] at hb
    obtain ⟨budget, rfl⟩ := Nat.exists_eq_succ_of_ne_zero (n := budget) (by omega)
    have hbody : Statement.afterStatement size budget (body ++ rest) = .ok rest :=
      ih (by omega) hr
    simp only [Token.isKeywordIn, Bool.and_eq_true, beq_iff_eq, loops, List.contains_eq_mem,
      List.mem_cons, List.not_mem_nil, or_false, decide_eq_true_eq] at ht
    obtain ⟨hk, ht⟩ := ht
    rcases ht with ht | ht | ht | ht | ht | ht <;>
      simp [Statement.afterStatement, Token.is, Token.isKeyword, Token.isKeywordIn, headed, hk, ht,
        startsAt_group hheader, group_append hheader, ok_bind, hbody]
  | @doWhile closed t body w condition e ht _ hw hg he ih =>
    simp only [List.cons_append, List.length_cons, List.length_append] at hb
    obtain ⟨budget, rfl⟩ := Nat.exists_eq_succ_of_ne_zero (n := budget) (by omega)
    have hbody : Statement.afterStatement size budget (body ++ w :: (condition ++ e :: rest)) =
        .ok _ :=
      ih (by omega) ⟨by rw [startsWith_of_isKeyword hw]; decide,
        by rw [startsWith_of_isKeyword hw]; decide,
        fun _ => by rw [startsWith_of_isKeyword hw]; decide⟩
    simp only [Token.isKeyword, Bool.and_eq_true, beq_iff_eq] at ht
    simp [Statement.afterStatement, Token.is, Token.isKeyword, Token.isKeywordIn, headed, ht,
      ok_bind, hbody, afterDoBody_append hw hg he]

/-- A group in balanced tokens leaves fewer of them, which are balanced too. -/
lemma group_shrinks {size opener ts rest} (hb : Balanced ts)
    (ho : opener = "(" ∨ opener = "\x7b") (h : group size opener ts = .ok rest) :
    Balanced rest ∧ rest.length < ts.length := by
  obtain ⟨g, rfl, hg, hr⟩ := exists_of_group hb ho h
  cases hg with
  | mk =>
    rw [List.length_append, List.length_cons]
    exact ⟨hr, by omega⟩

/-- A statement in balanced tokens leaves fewer of them, which are balanced too. -/
lemma afterStatement_shrinks {size budget ts rest} (hb : Balanced ts)
    (h : afterStatement size budget ts = .ok rest) :
    Balanced rest ∧ rest <:+ ts ∧ rest.length < ts.length := by
  obtain ⟨s, rfl, hs, hr⟩ := afterStatement_sound hb h
  have := List.length_pos_iff.2 hs.ne_nil
  refine ⟨hr, List.suffix_append s rest, ?_⟩
  rw [List.length_append]
  omega

/-- Any two budgets that cover the tokens pass over the same `catch` clauses. -/
lemma afterCatches_budget {size handled b b' ts} (hb : Balanced ts) (h : ts.length ≤ b)
    (h' : ts.length ≤ b') :
    afterCatches size handled b ts = afterCatches size handled b' ts := by
  induction b generalizing handled b' ts with
  | zero =>
    obtain rfl := List.length_eq_zero_iff.1 (Nat.le_zero.1 h)
    cases b' <;> rfl
  | succ b ih =>
    cases ts with
    | nil => cases b' <;> rfl
    | cons t ts =>
      obtain ⟨b', rfl⟩ := Nat.exists_eq_succ_of_ne_zero (n := b') (by grind)
      rw [afterCatches, afterCatches]
      refine ite_congr rfl (fun hc => bind_congr_ok fun rest hrest => ?_) fun _ => rfl
      have hc : t.isKeyword "catch" = true := by simpa [startsWith] using hc
      obtain ⟨c, e, hcatch, hr⟩ := exists_of_afterCatch (hb.tail (opens_of_isKeyword hc)) hc hrest
      have hlength : rest.length < (t :: ts).length := by
        cases hcatch
        rw [e]
        grind
      exact ih hr (by omega) (by omega)

/-- Any two budgets that cover the tokens pass over the same statement, so a scan does not end
for want of budget. -/
theorem afterStatement_budget {size b b' ts} (hb : Balanced ts) (h : ts.length ≤ b)
    (h' : ts.length ≤ b') : afterStatement size b ts = afterStatement size b' ts := by
  -- what follows a reading is compared for what the reading can leave, which is shorter
  induction b generalizing b' ts with
  | zero =>
    obtain rfl := List.length_eq_zero_iff.1 (Nat.le_zero.1 h)
    cases b' <;> rfl
  | succ b ih =>
    cases ts with
    | nil => cases b' <;> rfl
    | cons t ts =>
      rw [List.length_cons] at h h'
      obtain ⟨b', rfl⟩ := Nat.exists_eq_succ_of_ne_zero (n := b') (by omega)
      rw [afterStatement, afterStatement]
      refine ite_congr rfl (fun _ => rfl) fun _ => ?_
      refine ite_congr rfl (fun _ => rfl) fun _ => ?_
      refine ite_congr rfl (fun _ => rfl) fun hswitch => ?_
      refine ite_congr rfl (fun hif => bind_congr_ok fun body hbody => ?_) fun hif => ?_
      · obtain ⟨hbal, hlt⟩ := group_shrinks (hb.tail (opens_of_isKeyword hif)) (.inl rfl) hbody
        have hsame : afterStatement size b body = afterStatement size b' body :=
          ih hbal (by omega) (by omega)
        rw [hsame]
        refine bind_congr_ok fun rest hrest => ite_congr rfl (fun he => ?_) fun _ => rfl
        obtain ⟨hbr, -, hlt'⟩ := afterStatement_shrinks hbal hrest
        cases rest with
        | nil => cases he
        | cons e rest =>
          have he : e.isKeyword "else" = true := by simpa [startsWith] using he
          rw [List.length_cons] at hlt'
          exact ih (hbr.tail (opens_of_isKeyword he)) (by simp; omega) (by simp; omega)
      refine ite_congr rfl (fun hloop => bind_congr_ok fun body hbody => ?_) fun _ => ?_
      · have hword := opens_of_isKeywordIn (isKeywordIn_loops hswitch hif hloop)
        obtain ⟨hbal, hlt⟩ := group_shrinks (hb.tail hword) (.inl rfl) hbody
        exact ih hbal (by omega) (by omega)
      refine ite_congr rfl (fun hdo => ?_) fun _ => rfl
      have hsame : afterStatement size b ts = afterStatement size b' ts :=
        ih (hb.tail (opens_of_isKeyword hdo)) (by omega) (by omega)
      rw [hsame]

/-- Tokens that hold those of a statement, and perhaps a `;` after its last brace. -/
def HoldsOnly (used ts : List Token) : Prop :=
  ts = used ∨
    ∃ t, ts = used ++ [t] ∧ t.is ";" = true ∧ used.getLast?.any (·.is "\x7d") = true

/-- The tokens that are kept of a balanced list are those of one statement. -/
lemma only_sound {size ts used} (hb : Balanced ts) (h : only size ts = .ok used) :
    Stmt used ∧ HoldsOnly used ts := by
  unfold only at h
  split at h
  case isTrue => cases h
  case isFalse =>
    rw [bind_eq_ok_iff] at h
    obtain ⟨rest, hrest, h⟩ := h
    obtain ⟨s, rfl, hs, -⟩ := afterStatement_sound hb hrest
    rw [List.length_append, Nat.add_sub_cancel, List.take_left] at h
    cases rest with
    | nil =>
      cases h
      exact ⟨hs, .inl (List.append_nil _)⟩
    | cons extra more =>
      dsimp only at h
      split at h
      case isFalse => cases h
      case isTrue hextra =>
        cases h
        simp only [Bool.and_eq_true, List.isEmpty_iff] at hextra
        obtain ⟨⟨rfl, hsemi⟩, hlast⟩ := hextra
        exact ⟨hs, .inr ⟨extra, rfl, hsemi, hlast⟩⟩

/-- One statement is kept, and a `;` after its last brace is dropped. -/
lemma only_complete {size ts used} (hs : Stmt used) (h : HoldsOnly used ts) :
    only size ts = .ok used := by
  obtain ⟨closed, hshape⟩ := hs.exists_shape
  unfold only
  rcases h with rfl | ⟨t, rfl, ht, hlast⟩
  · have hscan : afterStatement size ts.length (ts ++ []) = .ok [] :=
      hshape.afterStatement (Nat.le_refl _) ⟨rfl, rfl, fun _ => rfl⟩
    rw [List.append_nil] at hscan
    simp [hs.ne_nil, hscan, ok_bind]
    rfl
  · have hword : ∀ word, startsWith word [t] = false := by
      intro word
      simp only [Token.is, Bool.and_eq_true, beq_iff_eq] at ht
      simp [startsWith, Token.isKeyword, ht]
    have hscan : afterStatement size (used ++ [t]).length (used ++ [t]) = .ok [t] :=
      hshape.afterStatement (by simp) ⟨hword _, hword _, fun _ => hword _⟩
    rw [if_neg (by simp), hscan, ok_bind, List.length_append, Nat.add_sub_cancel, List.take_left]
    simp [ht, hlast]
    rfl

/-- The tokens of a fragment are read when its delimiters are balanced. -/
lemma balancedTokens_eq_ok_iff {text ts} :
    balancedTokens text = .ok ts ↔ tokenize false text = .ok ts ∧ Balanced ts := by
  simp only [balancedTokens, bind_eq_ok_iff]
  constructor
  · rintro ⟨us, hu, partners, hp, e⟩
    cases e
    exact ⟨hu, exists_partners_iff.1 ⟨partners, hp⟩⟩
  · rintro ⟨ht, hb⟩
    obtain ⟨partners, hp⟩ := exists_partners_iff.2 hb
    exact ⟨ts, ht, partners, hp, rfl⟩

/-- What a statement is read from: balanced tokens that hold it alone. -/
lemma parse_eq_ok_iff {text s} :
    parse text = .ok s ↔
      ∃ ts used, tokenize false text = .ok ts ∧ Balanced ts ∧ Stmt used ∧ HoldsOnly used ts ∧
        s = ⟨kindOf used, joinTokens used⟩ := by
  unfold parse
  constructor
  · intro h
    split at h
    case h_1 => cases h
    case h_2 used hused =>
      cases h
      obtain ⟨ts, hts, honly⟩ := bind_eq_ok_iff.1 hused
      obtain ⟨htokens, hb⟩ := balancedTokens_eq_ok_iff.1 hts
      obtain ⟨hs, hholds⟩ := only_sound hb honly
      exact ⟨ts, used, htokens, hb, hs, hholds, rfl⟩
  · rintro ⟨ts, used, htokens, hb, hs, hholds, rfl⟩
    rw [balancedTokens_eq_ok_iff.2 ⟨htokens, hb⟩, ok_bind, only_complete hs hholds]

/-- A text is read as a statement just if it has tokens, their delimiters are balanced, and they
are a statement, or one that ends with a brace and a `;` after it. Passing over a statement always
takes some of the tokens that are left, and how much budget there is does not matter once it covers
the tokens, for statements and for `catch` clauses: the scan stops by itself, never for want of
budget. -/
theorem parse_accepts_iff (text : String) :
    ((∃ s, parse text = .ok s) ↔
      ∃ ts, tokenize false text = .ok ts ∧ Balanced ts ∧
        (Stmt ts ∨ ∃ used t, ts = used ++ [t] ∧ Stmt used ∧
          used.getLast?.any (·.is "\x7d") = true ∧ t.is ";" = true)) ∧
    (∀ size budget ts rest, Balanced ts → afterStatement size budget ts = .ok rest →
      rest <:+ ts ∧ rest.length < ts.length) ∧
    (∀ size b b' ts, Balanced ts → ts.length ≤ b → ts.length ≤ b' →
      afterStatement size b ts = afterStatement size b' ts) ∧
    ∀ size handled b b' ts, Balanced ts → ts.length ≤ b → ts.length ≤ b' →
      afterCatches size handled b ts = afterCatches size handled b' ts := by
  refine ⟨⟨?_, ?_⟩, ?_, ?_, ?_⟩
  · rintro ⟨s, h⟩
    obtain ⟨ts, used, htokens, hb, hs, hholds, -⟩ := parse_eq_ok_iff.1 h
    refine ⟨ts, htokens, hb, ?_⟩
    rcases hholds with rfl | ⟨t, rfl, ht, hlast⟩
    · exact .inl hs
    · exact .inr ⟨used, t, rfl, hs, hlast, ht⟩
  · rintro ⟨ts, htokens, hb, hs | ⟨used, t, e, hs, hlast, ht⟩⟩
    · exact ⟨_, parse_eq_ok_iff.2 ⟨ts, ts, htokens, hb, hs, .inl rfl, rfl⟩⟩
    · exact ⟨_, parse_eq_ok_iff.2 ⟨ts, used, htokens, hb, hs, .inr ⟨t, e, ht, hlast⟩, rfl⟩⟩
  · exact fun size budget ts rest hb h => (afterStatement_shrinks hb h).2
  · exact fun size b b' ts hb h h' => afterStatement_budget hb h h'
  · exact fun size handled b b' ts hb h h' => afterCatches_budget hb h h'

/-- An `else` after two `if`s is read, passing over a `;` leaves nothing, and one token needs no
more budget than one. -/
theorem parse_accepts_nested_else :
    (∃ ts, tokenize false "if (a) if (b) x(); else \x7b y(); \x7d ;" = .ok ts ∧ Balanced ts ∧
      (Stmt ts ∨ ∃ used t, ts = used ++ [t] ∧ Stmt used ∧
        used.getLast?.any (·.is "\x7d") = true ∧ t.is ";" = true)) ∧
    ([] : List Token).length < [(⟨.punctuator, ";", 0, false⟩ : Token)].length ∧
    afterStatement 3 1 [⟨.keyword, "try", 0, false⟩] =
      afterStatement 3 9 [⟨.keyword, "try", 0, false⟩] ∧
    afterCatches 5 false 1 [⟨.keyword, "catch", 0, false⟩] =
      afterCatches 5 false 9 [⟨.keyword, "catch", 0, false⟩] :=
  ⟨(parse_accepts_iff _).1.1 ⟨⟨.compound, "if (a) if (b) x(); else \x7b y(); \x7d"⟩,
      by decide +kernel⟩,
    ((parse_accepts_iff "").2.1 0 1 _ [] (.token (by decide) (by decide) .nil) (by decide)).2,
    (parse_accepts_iff "").2.2.1 3 1 9 _ (.token (by decide) (by decide) .nil) (by decide)
      (by decide),
    (parse_accepts_iff "").2.2.2 5 false 1 9 _ (.token (by decide) (by decide) .nil) (by decide)
      (by decide)⟩

end SharpSmith.Statement
