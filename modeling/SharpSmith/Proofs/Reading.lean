import SharpSmith.Fragment.Lexeme
import SharpSmith.Proofs.Characters

/-!
# Reading tokens step by step

Reading a text goes lexeme by lexeme. What is read as kinds and texts, `bareTokens?`, does not
depend on where the text stands, only on whether a directive may come next; each lexeme takes one
step of it. Everything that is said later about the tokens of a text put together from parts is
said by these steps.
-/

namespace SharpSmith.Fragment

/-- Skipping characters of a lexeme is dropping them. -/
lemma tokensFrom_skip {directives p n cs} :
    tokensFrom directives p n cs = tokensFrom directives p 0 (cs.drop n) := by
  induction n generalizing cs with
  | zero => rfl
  | succ n ih =>
    cases cs with
    | nil => simp [tokensFrom]
    | cons c cs => simpa [tokensFrom] using ih

/-- Induction on a text that is read: what holds of no text and is kept by a blank lexeme and by a
token before it holds of every text and its tokens. -/
lemma tokensFrom_induction {directives} {motive : Position → List Char → List Token → Prop}
    (nil : ∀ p, motive p [] [])
    (blank : ∀ p c cs n ts, lexeme directives p.lineStart c cs = .ok ⟨.blank, n⟩ →
      motive ⟨p.lineStart || c == '\n', true, p.offset + Text.byteLength (c :: cs.take n)⟩
        (cs.drop n) ts →
      motive p (c :: cs) ts)
    (token : ∀ p c cs kind n ts, lexeme directives p.lineStart c cs = .ok ⟨.token kind, n⟩ →
      motive ⟨false, false, p.offset + Text.byteLength (c :: cs.take n)⟩ (cs.drop n) ts →
      motive p (c :: cs) (⟨kind, String.ofList (c :: cs.take n), p.offset, p.spaced⟩ :: ts))
    {p cs ts} (h : tokensFrom directives p 0 cs = .ok ts) : motive p cs ts := by
  induction hn : cs.length using Nat.strongRecOn generalizing p cs ts with
  | ind n ih =>
    cases cs with
    | nil =>
      cases h
      exact nil p
    | cons c cs =>
      have hlt : ∀ k, (cs.drop k).length < n := by
        intro k
        simp only [List.length_drop, ← hn, List.length_cons]
        omega
      rw [tokensFrom] at h
      split at h
      case h_1 => cases h
      case h_2 hl =>
        rw [tokensFrom_skip] at h
        exact blank _ _ _ _ _ hl (ih _ (hlt _) h rfl)
      case h_3 hl =>
        dsimp only at h
        split at h
        case h_2 => cases h
        case h_1 us hus =>
          cases h
          rw [tokensFrom_skip] at hus
          exact token _ _ _ _ _ _ hl (ih _ (hlt _) hus rfl)

/-- What is read of a text as kinds and texts, or nothing when the text has no tokens. -/
def bareTokens? (directives lineStart : Bool) (cs : List Char) :
    Option (List (TokenKind × String)) :=
  (tokensFrom directives ⟨lineStart, false, 0⟩ 0 cs).toOption.map (List.map Token.bare)

/-- Where a text stands changes neither the kinds nor the texts of its tokens. -/
lemma toOption_tokensFrom {directives cs} (p : Position) :
    (tokensFrom directives p 0 cs).toOption.map (List.map Token.bare) =
      bareTokens? directives p.lineStart cs := by
  induction hn : cs.length using Nat.strongRecOn generalizing p cs with
  | ind n ih =>
    cases cs with
    | nil => simp [bareTokens?, tokensFrom]
    | cons c cs =>
      unfold bareTokens?
      rw [tokensFrom, tokensFrom]
      cases lexeme directives p.lineStart c cs with
      | error e => rfl
      | ok l =>
        obtain ⟨shape, extra⟩ := l
        have hlt : (cs.drop extra).length < n := by
          simp only [List.length_drop, ← hn, List.length_cons]
          omega
        cases shape with
        | blank =>
          simp only [tokensFrom_skip (n := extra)]
          rw [ih _ hlt _ rfl, ih _ hlt _ rfl]
        | token kind =>
          simp only [tokensFrom_skip (n := extra)]
          have h1 := ih _ hlt ⟨false, false, p.offset + Text.byteLength (c :: cs.take extra)⟩ rfl
          have h2 := ih _ hlt ⟨false, false, 0 + Text.byteLength (c :: cs.take extra)⟩ rfl
          rw [← h2] at h1
          revert h1
          cases tokensFrom directives _ 0 (cs.drop extra) <;>
            cases tokensFrom directives _ 0 (cs.drop extra) <;>
            simp [Except.toOption, Token.bare]

/-- A text has given tokens just if that is what is read of it. -/
lemma tokenize_bare_iff {directives text bs} :
    (∃ ts, tokenize directives text = .ok ts ∧ ts.map Token.bare = bs) ↔
      bareTokens? directives true text.toList = some bs := by
  rw [show bareTokens? directives true text.toList =
    (tokenize directives text).toOption.map (List.map Token.bare) from rfl]
  cases tokenize directives text <;> simp [Except.toOption]

/-- An empty text has no tokens. -/
@[simp] lemma bareTokens?_nil {directives lineStart} :
    bareTokens? directives lineStart [] = some [] := by
  simp [bareTokens?, tokensFrom, Except.toOption]

/-- A blank lexeme is passed over; a line feed lets a directive come next. -/
lemma bareTokens?_blank {directives lineStart c cs n}
    (h : lexeme directives lineStart c cs = .ok ⟨.blank, n⟩) :
    bareTokens? directives lineStart (c :: cs) =
      bareTokens? directives (lineStart || c == '\n') (cs.drop n) := by
  rw [bareTokens?, tokensFrom, h]
  simp only [tokensFrom_skip (n := n)]
  exact toOption_tokensFrom _

/-- A token comes before what is read of the rest. -/
lemma bareTokens?_token {directives lineStart c cs kind n}
    (h : lexeme directives lineStart c cs = .ok ⟨.token kind, n⟩) :
    bareTokens? directives lineStart (c :: cs) =
      (bareTokens? directives false (cs.drop n)).map
        ((kind, String.ofList (c :: cs.take n)) :: ·) := by
  rw [bareTokens?, tokensFrom, h]
  simp only [tokensFrom_skip (n := n)]
  rw [← toOption_tokensFrom ⟨false, false, 0 + Text.byteLength (c :: cs.take n)⟩]
  cases tokensFrom directives _ 0 (cs.drop n) <;> rfl

/-- A text that starts with no lexeme has no tokens. -/
lemma bareTokens?_stuck {directives lineStart c cs e}
    (h : lexeme directives lineStart c cs = .error e) :
    bareTokens? directives lineStart (c :: cs) = none := by
  rw [bareTokens?, tokensFrom, h]
  rfl

/-- A white space character is passed over. -/
lemma bareTokens?_isBlank {directives lineStart c cs} (h : Text.isBlank c = true) :
    bareTokens? directives lineStart (c :: cs) =
      bareTokens? directives (lineStart || c == '\n') cs := by
  have hl : lexeme directives lineStart c cs = .ok ⟨.blank, 0⟩ := by simp [lexeme, h]
  simpa using bareTokens?_blank hl

end SharpSmith.Fragment
