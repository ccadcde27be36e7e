import Mathlib.Data.List.DropRight
import SharpSmith.Proofs.Assemblies
import SharpSmith.Proofs.Places

/-!
# The grammar of written types

`Spells` says by its rules which texts write a type, and which type. Reading a text accepts exactly
these: `readType_sound` finds a derivation for what is read, and `readType_complete` reads what is
derived, given what may follow a type.
-/

namespace SharpSmith.WrittenType

/-- White space, or nothing. -/
def Blank (w : List Char) : Prop :=
  ∀ c ∈ w, Text.isBlank c = true

/-- The name of a type: letters, numerals and underscores that start with no ASCII digit. -/
structure IsTypeName (name : List Char) : Prop where
  ne_nil : name ≠ []
  word : ∀ c ∈ name, Text.continuesWord c = true
  noDigit : ∀ c ∈ name.head?, c.isDigit = false

/-- Pairs of array brackets, with white space before each bracket. -/
inductive Brackets : (rank : Nat) → List Char → Prop where
  | nil : Brackets 0 []
  | pair {rank w v cs} :
    Blank w →
    Blank v →
    Brackets rank cs →
    Brackets (rank + 1) (w ++ '[' :: (v ++ ']' :: cs))

mutual

/-- A text, the first character of which stands at byte `offset`, writes a type. -/
inductive Spells : (offset : Nat) → List Char → WrittenType → Prop where
  | mk {offset w name cs args ds rank} :
    Blank w →
    IsTypeName name →
    SpellsArgs (offset + Text.byteLength (w ++ name)) cs args →
    Brackets rank ds →
    Spells offset (w ++ name ++ cs ++ ds)
      ⟨String.ofList name, args, rank, ⟨offset + Text.byteLength w, Text.byteLength name⟩⟩

/-- A text writes type arguments in their brackets, or nothing. -/
inductive SpellsArgs : (offset : Nat) → List Char → List WrittenType → Prop where
  | nil {offset} : SpellsArgs offset [] []
  | list {offset w cs args} :
    Blank w →
    SpellsList (offset + Text.byteLength (w ++ ['<'])) cs args →
    SpellsArgs offset (w ++ '<' :: cs) args

/-- A text writes types with commas between, and the bracket that closes them. -/
inductive SpellsList : (offset : Nat) → List Char → List WrittenType → Prop where
  | last {offset cs arg w} :
    Spells offset cs arg →
    Blank w →
    SpellsList offset (cs ++ w ++ ['>']) [arg]
  | cons {offset cs arg w ds args} :
    Spells offset cs arg →
    Blank w →
    SpellsList (offset + Text.byteLength (cs ++ w ++ [','])) ds args →
    SpellsList offset (cs ++ w ++ ',' :: ds) (arg :: args)

end

/-- White space before a text is trimmed away with its own. -/
lemma trimStart_blank {w cs : List Char} (hw : Blank w) :
    Text.trimStart (w ++ cs) = Text.trimStart cs := by
  rw [Text.trimStart, Text.trimStart, List.dropWhile_append_of_pos hw]

/-- White space is cut off the start of a text. -/
lemma exists_trimStart (cs : List Char) :
    ∃ w, cs = w ++ Text.trimStart cs ∧ Blank w :=
  ⟨cs.takeWhile Text.isBlank, (List.takeWhile_append_dropWhile).symm,
    fun _ hc => List.mem_takeWhile_imp hc⟩

/-- Nothing is trimmed of a text that starts with something else than white space. -/
lemma trimStart_cons {c : Char} {cs} (h : Text.isBlank c = false) :
    Text.trimStart (c :: cs) = c :: cs :=
  List.dropWhile_cons_of_neg (by simp [h])

/-- What is read as a name is one, after white space. -/
lemma readName_sound {offset size cs name span rest}
    (hsize : size = offset + Text.byteLength cs)
    (h : readName size cs = .ok ((name, span), rest)) :
    ∃ w n, cs = w ++ (n ++ rest) ∧ Blank w ∧ IsTypeName n ∧ name = String.ofList n ∧
      span = ⟨offset + Text.byteLength w, Text.byteLength n⟩ := by
  obtain ⟨w, e, hw⟩ := exists_trimStart cs
  unfold readName at h
  dsimp only at h
  generalize Text.trimStart cs = ds at h e
  have hds := List.prefix_append_drop (ds.takeWhile_prefix Text.continuesWord)
  generalize hn : ds.takeWhile Text.continuesWord = n at h hds
  split at h
  case isTrue => cases h
  case isFalse hempty =>
    split at h
    case isTrue => cases h
    case isFalse hdigit =>
      split at h
      case isTrue => cases h
      case isFalse =>
        cases h
        refine ⟨w, n, by rw [e, ← hds], hw, ⟨by simpa using hempty, ?_, ?_⟩, rfl, ?_⟩
        · intro c hc
          rw [← hn] at hc
          exact List.mem_takeWhile_imp hc
        · intro c hc
          rw [hc] at hdigit
          simpa using hdigit
        · rw [offsetOf, hsize, e, Text.byteLength_append]
          congr 1
          omega

/-- What is read as array brackets are some. -/
lemma brackets_sound {size budget cs rank rest} (h : brackets size budget cs = .ok (rank, rest)) :
    ∃ ds w, cs = ds ++ (w ++ rest) ∧ Brackets rank ds ∧ Blank w := by
  induction budget generalizing cs rank with
  | zero =>
    cases h
    exact ⟨[], [], rfl, .nil, nofun⟩
  | succ budget ih =>
    obtain ⟨w, e, hw⟩ := exists_trimStart cs
    rw [brackets] at h
    generalize Text.trimStart cs = us at h e
    subst e
    split at h
    case h_2 =>
      cases h
      exact ⟨[], w, rfl, .nil, hw⟩
    case h_1 us =>
      obtain ⟨v, e, hv⟩ := exists_trimStart us
      generalize Text.trimStart us = vs at h e
      subst e
      split at h
      case h_2 => cases h
      case h_1 vs =>
        split at h
        case h_2 => cases h
        case h_1 n _ hn =>
          cases h
          obtain ⟨ds, x, rfl, hds, hx⟩ := ih hn
          exact ⟨w ++ '[' :: (v ++ ']' :: ds), x, by simp, .pair hw hv hds, hx⟩

/-- The place of what follows a part of a text. -/
lemma size_append {size offset : Nat} {cs ds : List Char}
    (h : size = offset + Text.byteLength (cs ++ ds)) :
    size = offset + Text.byteLength cs + Text.byteLength ds := by
  rw [h, Text.byteLength_append, Nat.add_assoc]

/-- White space may stand before array brackets, or after none. -/
lemma Brackets.after_blank {rank w ds} (hw : Blank w) (h : Brackets rank ds) :
    ∃ ds' v, w ++ ds = ds' ++ v ∧ Brackets rank ds' ∧ Blank v := by
  cases h with
  | nil => exact ⟨[], w, List.append_nil w, .nil, hw⟩
  | @pair _ v x cs hv hx hcs =>
    refine ⟨w ++ v ++ '[' :: (x ++ ']' :: cs), [], by simp, ?_, nofun⟩
    exact .pair (List.forall_mem_append.2 ⟨hw, hv⟩) hx hcs

/-- Type arguments, if there are some, and the rest. -/
def arguments (size budget : Nat) (cs : List Char) : Except Error (List WrittenType × List Char) :=
  match Text.trimStart cs with
  | '<' :: cs => readArgs size budget cs
  | cs => .ok ([], cs)

/-- After an opening bracket a list of arguments is read. -/
lemma arguments_open {size budget cs us} (h : Text.trimStart us = '<' :: cs) :
    arguments size budget us = readArgs size budget cs := by
  simp only [arguments, h]

/-- Without an opening bracket there are no arguments, and white space is passed over. -/
lemma arguments_none {size budget us} (h : ∀ cs, Text.trimStart us ≠ '<' :: cs) :
    arguments size budget us = .ok ([], Text.trimStart us) := by
  rw [arguments]
  split
  case h_1 cs e => exact absurd e (h cs)
  case h_2 => rfl

/-- A type is a name, type arguments and array brackets. -/
lemma readType_succ {size budget cs} :
    readType size (budget + 1) cs =
      readName size cs >>= fun r => arguments size budget r.2 >>= fun a =>
        brackets size a.2.length a.2 >>= fun b => .ok (⟨r.1.1, a.1, b.1, r.1.2⟩, b.2) := by
  unfold readType
  congr 1
  funext r
  obtain ⟨⟨name, span⟩, us⟩ := r
  dsimp only
  split
  case h_1 e =>
    rw [arguments_open e]
    rfl
  case h_2 hnone =>
    rw [arguments_none hnone]
    rfl

/-- What is read as type arguments, or passed over for want of them, writes them. -/
lemma arguments_sound {size budget offset us args rest}
    (hlist : ∀ offset cs es rest, size = offset + Text.byteLength cs →
      readArgs size budget cs = .ok (es, rest) → ∃ t, cs = t ++ rest ∧ SpellsList offset t es)
    (hsize : size = offset + Text.byteLength us)
    (h : arguments size budget us = .ok (args, rest)) :
    ∃ t w, us = t ++ (w ++ rest) ∧ SpellsArgs offset t args ∧ Blank w := by
  obtain ⟨v, e, hv⟩ := exists_trimStart us
  unfold arguments at h
  generalize Text.trimStart us = zs at e h
  subst e
  split at h
  case h_1 zs hsize =>
    rw [List.append_cons] at hsize
    obtain ⟨t, rfl, ht⟩ := hlist _ _ _ _ (size_append hsize) h
    exact ⟨v ++ '<' :: t, [], by simp, .list hv ht, nofun⟩
  case h_2 =>
    cases h
    exact ⟨[], v, rfl, .nil, hv⟩

/-- What is read as a type, or as type arguments, writes it. -/
lemma readType_sound {size budget} :
    (∀ offset cs e rest, size = offset + Text.byteLength cs →
      readType size budget cs = .ok (e, rest) →
        ∃ t w, cs = t ++ (w ++ rest) ∧ Spells offset t e ∧ Blank w) ∧
      ∀ offset cs es rest, size = offset + Text.byteLength cs →
        readArgs size budget cs = .ok (es, rest) →
          ∃ t, cs = t ++ rest ∧ SpellsList offset t es := by
  induction budget with
  | zero =>
    exact ⟨fun _ _ _ _ _ h => by simp [readType] at h, fun _ _ _ _ _ h => by simp [readArgs] at h⟩
  | succ budget ih =>
    constructor
    · intro offset cs e rest hsize h
      simp only [readType_succ, bind_eq_ok_iff] at h
      obtain ⟨⟨⟨name, span⟩, us⟩, hname, ⟨args, vs⟩, hargs, ⟨rank, tail⟩, hrank, h⟩ := h
      cases h
      obtain ⟨w, n, rfl, hw, hn, rfl, rfl⟩ := readName_sound hsize hname
      obtain ⟨ds, x, rfl, hds, hx⟩ := brackets_sound hrank
      rw [← List.append_assoc] at hsize ⊢
      obtain ⟨t, y, rfl, hargs, hy⟩ := arguments_sound ih.2 (size_append hsize) hargs
      obtain ⟨ds', z, e, hds', hz⟩ := hds.after_blank hy
      refine ⟨w ++ n ++ t ++ ds', z ++ x, ?_, .mk hw hn hargs hds',
        List.forall_mem_append.2 ⟨hz, hx⟩⟩
      rw [← List.append_assoc y, e]
      simp
    · intro offset cs es rest hsize h
      simp only [readArgs, bind_eq_ok_iff] at h
      obtain ⟨⟨arg, us⟩, harg, h⟩ := h
      obtain ⟨t, w, rfl, ht, hw⟩ := ih.1 _ _ _ _ hsize harg
      obtain ⟨v, e, hv⟩ := exists_trimStart us
      have hwv : Blank (w ++ v) := List.forall_mem_append.2 ⟨hw, hv⟩
      dsimp only at h
      generalize Text.trimStart us = zs at e h
      subst e
      split at h
      case h_1 zs =>
        rw [bind_eq_ok_iff] at h
        obtain ⟨⟨args, vs⟩, hargs, h⟩ := h
        cases h
        have hplace : t ++ (w ++ (v ++ ',' :: zs)) = t ++ (w ++ v) ++ [','] ++ zs := by simp
        rw [hplace] at hsize ⊢
        obtain ⟨ds, rfl, hds⟩ := ih.2 _ _ _ _ (size_append hsize) hargs
        exact ⟨t ++ (w ++ v) ++ ',' :: ds, by simp, .cons ht hwv hds⟩
      case h_2 =>
        cases h
        exact ⟨t ++ (w ++ v) ++ ['>'], by simp, .last ht hwv⟩
      case h_3 => cases h

/-- What may follow a name: no character of a word, and no point. -/
def Breaks (rest : List Char) : Prop :=
  ∀ c ∈ rest.head?, Text.continuesWord c = false ∧ c ≠ '.'

/-- What may follow a type: after white space a comma, a closing bracket of type arguments, or
nothing. -/
def Stops (rest : List Char) : Prop :=
  ∀ c ∈ (Text.trimStart rest).head?, c = ',' ∨ c = '>'

/-- What may follow a name may follow it after white space. -/
lemma Breaks.blank {w rest} (hw : Blank w) (h : Breaks rest) : Breaks (w ++ rest) := by
  cases w with
  | nil => exact h
  | cons x w =>
    intro c hc
    cases hc
    have hx := hw x (.head _)
    refine ⟨Text.continuesWord_of_isBlank hx, ?_⟩
    rintro rfl
    exact absurd hx (by decide)

/-- What may follow a type may follow a name. -/
lemma Stops.breaks {rest} (h : Stops rest) : Breaks rest := by
  obtain ⟨w, e, hw⟩ := exists_trimStart rest
  rw [e]
  refine .blank hw fun c hc => ?_
  rcases h c hc with rfl | rfl <;> decide

/-- An opening bracket may follow a name. -/
lemma breaks_cons {c rest} (h : c = '<' ∨ c = '[') : Breaks (c :: rest) := by
  intro x hx
  cases hx
  rcases h with rfl | rfl <;> decide

/-- A comma or a closing bracket may follow a type, after white space. -/
lemma stops_sign {c w rest} (hc : c = ',' ∨ c = '>') (hw : Blank w) : Stops (w ++ c :: rest) := by
  have hb : Text.isBlank c = false := by rcases hc with rfl | rfl <;> decide
  intro x hx
  rw [trimStart_blank hw, trimStart_cons hb] at hx
  cases hx
  exact hc

/-- A name is read up to what follows it. -/
lemma IsTypeName.readName {offset size w n rest} (hn : IsTypeName n) (hw : Blank w)
    (hr : Breaks rest) (hsize : size = offset + Text.byteLength (w ++ (n ++ rest))) :
    readName size (w ++ (n ++ rest)) =
      .ok ((String.ofList n, ⟨offset + Text.byteLength w, Text.byteLength n⟩), rest) := by
  obtain ⟨x, n, rfl⟩ := List.exists_cons_of_ne_nil hn.ne_nil
  have hblank : Text.trimStart (w ++ (x :: n ++ rest)) = x :: n ++ rest := by
    rw [trimStart_blank hw]
    exact trimStart_cons (Text.isBlank_of_continuesWord (hn.word x (.head _)))
  have htake : (x :: n ++ rest).takeWhile Text.continuesWord = x :: n :=
    Text.takeWhile_append_stop hn.word fun c hc => (hr c hc).1
  have hoffset : offsetOf size (x :: n ++ rest) = offset + Text.byteLength w := by
    rw [offsetOf, size_append hsize, Nat.add_sub_cancel]
  have hdigit : ¬(x :: n).head?.any Char.isDigit = true := by
    simpa using hn.noDigit x rfl
  have hpoint : rest.head? ≠ some '.' := fun hp => (hr '.' hp).2 rfl
  unfold WrittenType.readName
  dsimp only
  rw [hblank, htake, List.drop_left, hoffset, if_neg (by simp), if_neg hdigit, if_neg hpoint]

/-- Array brackets are read up to what follows them. -/
lemma Brackets.read {size budget rank ds rest us} (h : Brackets rank ds) (hr : Stops rest)
    (hu : Text.trimStart us = Text.trimStart (ds ++ rest)) (hb : us.length ≤ budget) :
    brackets size budget us = .ok (rank, Text.trimStart rest) := by
  induction h generalizing budget us with
  | nil =>
    cases budget with
    | zero =>
      obtain rfl := List.length_eq_zero_iff.1 (Nat.le_zero.1 hb)
      rw [← List.nil_append rest, ← hu]
      rfl
    | succ budget =>
      rw [brackets, hu, List.nil_append]
      split
      case h_1 e =>
        exact absurd (hr '[' (by rw [e]; rfl)) (by decide)
      case h_2 => rfl
  | @pair rank w v cs hw hv _ ih =>
    rw [List.append_assoc, trimStart_blank hw, List.cons_append, trimStart_cons (by decide)] at hu
    cases budget with
    | zero =>
      obtain rfl := List.length_eq_zero_iff.1 (Nat.le_zero.1 hb)
      cases hu
    | succ budget =>
      have hlength : (cs ++ rest).length ≤ budget := by
        have hle : (Text.trimStart us).length ≤ us.length := (List.dropWhile_sublist _).length_le
        rw [hu] at hle
        simp only [List.length_cons, List.length_append] at hle ⊢
        omega
      have hclose : Text.trimStart (v ++ ']' :: cs ++ rest) = ']' :: (cs ++ rest) := by
        rw [List.append_assoc, trimStart_blank hv, List.cons_append, trimStart_cons (by decide)]
      simp only [brackets, hu, hclose, ih rfl hlength]

/-- There are no arguments when what is there does not start with an opening bracket. -/
lemma arguments_of_head {size budget us} (h : (Text.trimStart us).head? ≠ some '<') :
    arguments size budget us = .ok ([], Text.trimStart us) := by
  unfold arguments
  split
  case h_1 e =>
    rw [e] at h
    exact absurd rfl h
  case h_2 => rfl

/-- After white space and an opening bracket a list of arguments is read. -/
lemma arguments_list {size budget w us} (hw : Blank w) :
    arguments size budget (w ++ '<' :: us) = readArgs size budget us := by
  rw [arguments, trimStart_blank hw, trimStart_cons (by decide)]
  rfl

/-- Array brackets are not taken for a list of arguments. -/
lemma Brackets.head? {rank ds rest} (h : Brackets rank ds) (hr : Stops rest) :
    (Text.trimStart (ds ++ rest)).head? ≠ some '<' := by
  cases h with
  | nil => exact fun e => absurd (hr '<' e) (by decide)
  | pair hw =>
    rw [List.append_assoc, trimStart_blank hw, List.cons_append, trimStart_cons (by decide),
      List.head?_cons]
    decide

/-- What follows a name in the text of a type does not go on with it. -/
lemma SpellsArgs.breaks {offset cs args rank ds rest} (h : SpellsArgs offset cs args)
    (hds : Brackets rank ds) (hr : Stops rest) : Breaks (cs ++ (ds ++ rest)) := by
  cases h with
  | nil =>
    cases hds with
    | nil => exact hr.breaks
    | pair hw =>
      rw [List.nil_append, List.append_assoc]
      exact .blank hw (breaks_cons (.inr rfl))
  | list hw =>
    rw [List.append_assoc]
    exact .blank hw (breaks_cons (.inl rfl))

/-- No type is written with nothing. -/
lemma Spells.length_pos {offset t e} (h : Spells offset t e) : 0 < t.length := by
  cases h with
  | mk _ hn =>
    have := List.length_pos_iff.2 hn.ne_nil
    simp only [List.length_append]
    omega

/-- A text that writes a type is read as that type, and one that writes type arguments as them. -/
lemma readType_complete {size budget} :
    (∀ offset t e rest, size = offset + Text.byteLength (t ++ rest) → Spells offset t e →
      Stops rest → 2 * t.length ≤ budget →
        readType size budget (t ++ rest) = .ok (e, Text.trimStart rest)) ∧
      ∀ offset t es rest, size = offset + Text.byteLength (t ++ rest) → SpellsList offset t es →
        2 * t.length ≤ budget → readArgs size budget (t ++ rest) = .ok (es, rest) := by
  induction budget with
  | zero =>
    constructor
    · intro offset t e rest _ h _ hb
      have := h.length_pos
      omega
    · intro offset t es rest _ h hb
      cases h <;> simp at hb
  | succ budget ih =>
    constructor
    · intro offset t e rest hsize h hr hb
      cases h with
      | @mk _ w n cs args ds rank hw hn hargs hds =>
        have hpos := List.length_pos_iff.2 hn.ne_nil
        simp only [List.length_append] at hb
        have hbreaks := hargs.breaks hds hr
        obtain ⟨us, hargs, hus⟩ : ∃ us, arguments size budget (cs ++ (ds ++ rest)) =
            .ok (args, us) ∧ Text.trimStart us = Text.trimStart (ds ++ rest) := by
          cases hargs with
          | nil =>
            exact ⟨_, arguments_of_head (hds.head? hr), List.dropWhile_idempotent _ _⟩
          | @list _ v cs _ hv hlist =>
            refine ⟨ds ++ rest, ?_, rfl⟩
            simp only [List.length_append, List.length_cons] at hb
            have hplace : w ++ n ++ (v ++ '<' :: cs) ++ ds ++ rest =
                w ++ n ++ (v ++ ['<'] ++ (cs ++ (ds ++ rest))) := by simp
            rw [hplace] at hsize
            rw [List.append_assoc, List.cons_append, arguments_list hv]
            exact ih.2 _ _ _ _ (size_append (size_append hsize)) hlist (by omega)
        have hplace : w ++ n ++ cs ++ ds ++ rest = w ++ (n ++ (cs ++ (ds ++ rest))) := by simp
        rw [hplace] at hsize ⊢
        rw [readType_succ, hn.readName hw hbreaks hsize, ok_bind, hargs, ok_bind,
          hds.read hr hus (Nat.le_refl _), ok_bind]
    · intro offset t es rest hsize h hb
      cases h with
      | @last _ t arg w ht hw =>
        have hplace : t ++ w ++ ['>'] ++ rest = t ++ (w ++ '>' :: rest) := by simp
        rw [hplace] at hsize ⊢
        simp only [List.length_append, List.length_singleton] at hb
        have harg := ih.1 _ _ _ _ hsize ht (stops_sign (.inr rfl) hw) (by omega)
        rw [trimStart_blank hw, trimStart_cons (by decide)] at harg
        rw [readArgs, harg, ok_bind]
        rfl
      | @cons _ t arg w ds args ht hw hds =>
        have hplace : t ++ w ++ ',' :: ds ++ rest = t ++ (w ++ ',' :: (ds ++ rest)) := by simp
        have hplace' : t ++ w ++ ',' :: ds ++ rest = t ++ w ++ [','] ++ (ds ++ rest) := by simp
        have hsize' := hsize
        rw [hplace] at hsize ⊢
        rw [hplace'] at hsize'
        simp only [List.length_append, List.length_cons] at hb
        have harg := ih.1 _ _ _ _ hsize ht (stops_sign (.inl rfl) hw) (by omega)
        have hargs := ih.2 _ _ _ _ (size_append hsize') hds (by omega)
        have hcomma : Text.trimStart (',' :: (ds ++ rest)) = ',' :: (ds ++ rest) :=
          trimStart_cons (by decide)
        rw [trimStart_blank hw, hcomma] at harg
        rw [readArgs, harg, ok_bind]
        simp only [hcomma, hargs]
        rfl

/-- A text that is trimmed away is white space. -/
lemma blank_of_trimStart {cs : List Char} (h : Text.trimStart cs = []) : Blank cs := by
  obtain ⟨w, e, hw⟩ := exists_trimStart cs
  rw [h, List.append_nil] at e
  rwa [e]

/-- White space is trimmed away. -/
lemma trimStart_eq_nil {w : List Char} (hw : Blank w) : Text.trimStart w = [] :=
  List.dropWhile_eq_nil_iff.2 hw

/-- A text is read as a type just if it writes that type, with white space after it. -/
lemma parse_eq_ok_iff {text e} :
    parse text = .ok e ↔ ∃ t w, text.toList = t ++ w ∧ Spells 0 t e ∧ Blank w := by
  constructor
  · intro h
    simp only [parse, bind_eq_ok_iff] at h
    obtain ⟨⟨e', us⟩, hread, h⟩ := h
    obtain ⟨t, w, ht, hspells, hw⟩ := readType_sound.1 0 _ _ _ (Nat.zero_add _).symm hread
    dsimp only at h
    split at h
    case h_2 => cases h
    case h_1 hend =>
      cases h
      exact ⟨t, w ++ us, ht, hspells, List.forall_mem_append.2 ⟨hw, blank_of_trimStart hend⟩⟩
  · rintro ⟨t, w, ht, hspells, hw⟩
    have hend := trimStart_eq_nil hw
    have hread : readType (Text.byteLength (t ++ w)) (2 * (t ++ w).length + 1) (t ++ w) =
        .ok (e, Text.trimStart w) := by
      refine readType_complete.1 0 t e w (Nat.zero_add _).symm hspells ?_ ?_
      · rw [Stops, hend]
        exact fun c hc => by cases hc
      · rw [List.length_append]
        omega
    rw [parse, ht]
    dsimp only
    rw [hread, hend]
    rfl

/-- No character of a word stands at the end of a text. -/
def EndsWord (cs : List Char) : Prop :=
  ∀ c ∈ cs.getLast?, Text.continuesWord c = false

/-- A text that goes on with a sign ends no word if the rest ends none. -/
lemma endsWord_cons {c : Char} {cs ds : List Char} (hc : Text.continuesWord c = false)
    (h : EndsWord ds) : EndsWord (cs ++ c :: ds) := by
  cases ds with
  | nil =>
    intro x hx
    rw [List.getLast?_concat] at hx
    cases hx
    exact hc
  | cons d ds =>
    intro x hx
    rw [List.append_cons, List.getLast?_append_cons] at hx
    exact h x hx

/-- White space after a text that ends no word ends none. -/
lemma EndsWord.blank {cs w : List Char} (h : EndsWord cs) (hw : Blank w) : EndsWord (cs ++ w) := by
  cases w using List.reverseRecOn with
  | nil => rwa [List.append_nil]
  | append_singleton w c =>
    have hc : Text.isBlank c = true := hw c (by simp)
    rw [← List.append_assoc]
    exact endsWord_cons (Text.continuesWord_of_isBlank hc) nofun

/-- A type is written at a place of a text, between signs or white space. -/
def Occurs (cs : List Char) (e : WrittenType) : Prop :=
  ∃ before t after, cs = before ++ (t ++ after) ∧ Spells (Text.byteLength before) t e ∧
    EndsWord before ∧ Stops after

/-- A type among type arguments is written between their brackets and commas. -/
lemma SpellsList.exists_arg {offset cs args arg} (h : SpellsList offset cs args)
    (harg : arg ∈ args) :
    ∃ before t after, cs = before ++ (t ++ after) ∧
      Spells (offset + Text.byteLength before) t arg ∧ EndsWord before ∧
      ∀ rest, Stops (after ++ rest) := by
  induction args generalizing offset cs with
  | nil => cases harg
  | cons a args ih =>
    cases h with
    | @last _ t _ w ht hw =>
      obtain rfl : arg = a := by simpa using harg
      refine ⟨[], t, w ++ ['>'], by simp, ht, nofun, fun rest => ?_⟩
      rw [List.append_assoc]
      exact stops_sign (.inr rfl) hw
    | @cons _ t _ w ds _ ht hw hds =>
      rcases List.mem_cons.1 harg with rfl | harg
      · refine ⟨[], t, w ++ ',' :: ds, by simp, ht, nofun, fun rest => ?_⟩
        rw [List.append_assoc]
        exact stops_sign (.inl rfl) hw
      · obtain ⟨before, u, after, rfl, hu, hlast, hafter⟩ := ih hds harg
        refine ⟨t ++ w ++ ',' :: before, u, after, by simp, ?_, endsWord_cons (by decide) hlast,
          hafter⟩
        rw [List.append_cons, Text.byteLength_append, ← Nat.add_assoc]
        exact hu

/-- An argument of a type that is written in a text is written there. -/
lemma Occurs.arg {cs e arg} (h : Occurs cs e) (harg : arg ∈ e.args) : Occurs cs arg := by
  obtain ⟨before, t, after, rfl, ht, -, -⟩ := h
  cases ht with
  | @mk _ w n us args ds rank hw hn hargs hds =>
    cases hargs with
    | nil => cases harg
    | @list _ v us _ hv hlist =>
      obtain ⟨front, u, back, rfl, hu, hlast, hback⟩ := hlist.exists_arg harg
      refine ⟨before ++ w ++ n ++ v ++ '<' :: front, u, back ++ (ds ++ after), by simp, ?_,
        endsWord_cons (by decide) hlast, hback _⟩
      rw [List.append_cons]
      simp only [Text.byteLength_append, ← Nat.add_assoc] at hu ⊢
      exact hu

/-- A part of a type that is written in a text is written there. -/
lemma Occurs.part {cs e n} (hpart : Part n e) (h : Occurs cs e) : Occurs cs n := by
  induction hpart with
  | self => exact h
  | arg ha _ ih => exact ih (h.arg ha)

/-- The place of a type is that of its name in a text: a whole word stands there, and it is the
name. -/
def Named (text : String) (e : WrittenType) : Prop :=
  ∃ before after : String, text = before ++ e.name ++ after ∧
    before.utf8ByteSize = e.span.offset ∧ e.name.utf8ByteSize = e.span.length ∧
    EndsWord before.toList ∧ ∀ c ∈ after.toList.head?, Text.continuesWord c = false

/-- The name of a type that is written in a text stands at its place. -/
lemma Occurs.named {text : String} {e} (h : Occurs text.toList e) : Named text e := by
  obtain ⟨before, t, after, e, ht, hbefore, hafter⟩ := h
  cases ht with
  | @mk _ w n us args ds rank hw hn hargs hds =>
    refine ⟨String.ofList (before ++ w), String.ofList (us ++ (ds ++ after)), ?_, ?_, ?_, ?_, ?_⟩
    · rw [← String.toList_inj, e]
      simp
    · rw [← Text.byteLength_eq, Text.byteLength_append]
    · rw [← Text.byteLength_eq]
    · rw [String.toList_ofList]
      exact hbefore.blank hw
    · rw [String.toList_ofList]
      exact fun c hc => (hargs.breaks hds hafter c hc).1

/-- The parts of a type that is read from a text are written in it. -/
lemma occurs_of_parse {text : String} {e n} (h : parse text = .ok e) (hpart : Part n e) :
    Occurs text.toList n := by
  obtain ⟨t, w, ht, hspells, hw⟩ := parse_eq_ok_iff.1 h
  have hroot : Occurs text.toList e := by
    refine ⟨[], t, w, ht, hspells, nofun, ?_⟩
    rw [Stops, trimStart_eq_nil hw]
    exact nofun
  exact hroot.part hpart

/-- A fault at the next character is in the text. -/
lemma covers_errorAt {offset size fault cs} (hsize : size = offset + Text.byteLength cs) :
    Span.Covers offset cs (errorAt size fault cs).span := by
  refine ⟨[], cs.take 1, cs.drop 1, (List.take_append_drop 1 cs).symm, ?_, rfl⟩
  rw [errorAt, offsetOf, hsize]
  exact Nat.add_sub_cancel ..

/-- A name that cannot be read is at fault within the text that is left. -/
lemma covers_readName {offset size cs e} (hsize : size = offset + Text.byteLength cs)
    (h : readName size cs = .error e) : Span.Covers offset cs e.span := by
  obtain ⟨w, ew, -⟩ := exists_trimStart cs
  unfold readName at h
  dsimp only at h
  generalize Text.trimStart cs = ds at h ew
  subst ew
  have hds := List.prefix_append_drop (ds.takeWhile_prefix Text.continuesWord)
  generalize ds.takeWhile Text.continuesWord = n at h hds
  have hsize := size_append hsize
  refine .after w ?_
  split at h
  case isTrue =>
    cases h
    exact covers_errorAt hsize
  case isFalse =>
    split at h
    case isTrue =>
      cases h
      refine ⟨[], n, ds.drop n.length, hds, ?_, rfl⟩
      rw [offsetOf, hsize]
      exact Nat.add_sub_cancel ..
    case isFalse =>
      split at h
      case isFalse => cases h
      case isTrue =>
        cases h
        generalize ds.drop n.length = rest at hds ⊢
        subst hds
        exact .after n (covers_errorAt (size_append hsize))

/-- Array brackets that cannot be read are at fault within the text that is left. -/
lemma covers_brackets {offset size budget cs e} (hsize : size = offset + Text.byteLength cs)
    (h : brackets size budget cs = .error e) : Span.Covers offset cs e.span := by
  induction budget generalizing offset cs with
  | zero => cases h
  | succ budget ih =>
    obtain ⟨w, ew, -⟩ := exists_trimStart cs
    rw [brackets] at h
    generalize Text.trimStart cs = us at h ew
    subst ew
    refine .after w ?_
    have hsize := size_append hsize
    split at h
    case h_2 => cases h
    case h_1 us hsize =>
      obtain ⟨v, ev, -⟩ := exists_trimStart us
      generalize Text.trimStart us = vs at h ev
      subst ev
      rw [← List.singleton_append] at hsize ⊢
      refine .after ['['] (.after v ?_)
      have hsize := size_append (size_append hsize)
      split at h
      case h_2 =>
        cases h
        exact covers_errorAt hsize
      case h_1 vs hsize =>
        split at h
        case h_1 => cases h
        case h_2 hfault =>
          cases h
          rw [← List.singleton_append] at hsize ⊢
          exact .after [']'] (ih (size_append hsize) hfault)

/-- Arguments that cannot be read are at fault within the text that is left. -/
lemma covers_arguments {size budget offset us e}
    (hlist : ∀ offset cs e, size = offset + Text.byteLength cs →
      readArgs size budget cs = .error e → Span.Covers offset cs e.span)
    (hsize : size = offset + Text.byteLength us) (h : arguments size budget us = .error e) :
    Span.Covers offset us e.span := by
  obtain ⟨v, ev, -⟩ := exists_trimStart us
  unfold arguments at h
  generalize Text.trimStart us = zs at ev h
  subst ev
  split at h
  case h_1 zs hsize =>
    rw [List.append_cons] at hsize ⊢
    exact .after _ (hlist _ _ _ (size_append hsize) h)
  case h_2 => cases h

/-- A fault in a type, or in type arguments, is in the text. -/
lemma covers_readType {size budget} :
    (∀ offset cs e, size = offset + Text.byteLength cs → readType size budget cs = .error e →
      Span.Covers offset cs e.span) ∧
      ∀ offset cs e, size = offset + Text.byteLength cs → readArgs size budget cs = .error e →
        Span.Covers offset cs e.span := by
  induction budget with
  | zero =>
    have hzero : ∀ offset cs, size = offset + Text.byteLength cs →
        Span.Covers offset cs (errorAt size .missingName (Text.trimStart cs)).span := by
      intro offset cs hsize
      obtain ⟨w, e, -⟩ := exists_trimStart cs
      generalize Text.trimStart cs = ds at e ⊢
      subst e
      exact .after w (covers_errorAt (size_append hsize))
    constructor
    · intro offset cs e hsize h
      rw [readType] at h
      cases h
      exact hzero _ _ hsize
    · intro offset cs e hsize h
      rw [readArgs] at h
      cases h
      exact hzero _ _ hsize
  | succ budget ih =>
    constructor
    · intro offset cs e hsize h
      rw [readType_succ, bind_eq_error_iff] at h
      rcases h with h | ⟨⟨⟨name, span⟩, us⟩, hname, h⟩
      · exact covers_readName hsize h
      obtain ⟨w, n, rfl, -⟩ := readName_sound hsize hname
      rw [← List.append_assoc] at hsize ⊢
      have hsize := size_append hsize
      refine .after (w ++ n) ?_
      dsimp only at h
      rw [bind_eq_error_iff] at h
      rcases h with h | ⟨⟨args, vs⟩, hargs, h⟩
      · exact covers_arguments ih.2 hsize h
      obtain ⟨t, y, rfl, -⟩ := arguments_sound readType_sound.2 hsize hargs
      rw [← List.append_assoc] at hsize ⊢
      refine .after (t ++ y) ?_
      rw [bind_eq_error_iff] at h
      rcases h with h | ⟨b, -, h⟩
      · exact covers_brackets (size_append hsize) h
      · cases h
    · intro offset cs e hsize h
      rw [readArgs, bind_eq_error_iff] at h
      rcases h with h | ⟨⟨arg, us⟩, harg, h⟩
      · exact ih.1 _ _ _ hsize h
      obtain ⟨t, w, rfl, -⟩ := readType_sound.1 _ _ _ _ hsize harg
      rw [← List.append_assoc] at hsize ⊢
      have hsize := size_append hsize
      refine .after (t ++ w) ?_
      obtain ⟨v, e, -⟩ := exists_trimStart us
      dsimp only at h
      generalize Text.trimStart us = zs at e h
      subst e
      split at h
      case h_1 zs hsize =>
        rw [bind_eq_error_iff] at h
        rcases h with h | ⟨a, -, h⟩
        · rw [List.append_cons] at hsize ⊢
          exact .after _ (ih.2 _ _ _ (size_append hsize) h)
        · cases h
      case h_2 => cases h
      case h_3 =>
        cases h
        exact .after v (covers_errorAt (size_append hsize))

/-- The fault of a text that is read as no type is in the text. -/
lemma covers_parse {text : String} {e} (h : parse text = .error e) :
    Span.Covers 0 text.toList e.span := by
  have hsize : Text.byteLength text.toList = 0 + Text.byteLength text.toList :=
    (Nat.zero_add _).symm
  rw [parse, bind_eq_error_iff] at h
  rcases h with h | ⟨⟨e', us⟩, hread, h⟩
  · exact covers_readType.1 _ _ _ hsize h
  obtain ⟨t, w, ht, -⟩ := readType_sound.1 _ _ _ _ hsize hread
  obtain ⟨v, ev, -⟩ := exists_trimStart us
  dsimp only at h
  generalize Text.trimStart us = zs at ev h
  split at h
  case h_1 => cases h
  case h_2 =>
    cases h
    have hplace : text.toList = t ++ w ++ v ++ zs := by rw [ht, ev]; simp
    rw [hplace] at hsize ⊢
    exact .after _ (covers_errorAt (size_append hsize))

/-- A text is read as a type just if the grammar derives that type from it. The place of each part
of the type is that of its name, and a fault is at a place in the text. -/
theorem type_text_grammar (text : String) :
    (∀ e, parse text = .ok e ↔ ∃ t w, text.toList = t ++ w ∧ Spells 0 t e ∧ Blank w) ∧
      (∀ e n, parse text = .ok e → Part n e → Named text n) ∧
      ∀ e, parse text = .error e → e.span.Within text := by
  exact ⟨fun e => parse_eq_ok_iff, fun e n h hpart => (occurs_of_parse h hpart).named,
    fun e h => (covers_parse h).within⟩

/-- A type with type arguments and array brackets is derived, and each of its parts is a word of the
text; the fault of a text with another sign in its type arguments is at that sign. -/
theorem type_text_grammar_map :
    (∃ e, parse " Map<Key, List <int>[ ] []>" = .ok e ∧
      (∃ t w, " Map<Key, List <int>[ ] []>".toList = t ++ w ∧ Spells 0 t e ∧ Blank w) ∧
      Named " Map<Key, List <int>[ ] []>" ⟨"int", [], 0, ⟨16, 3⟩⟩) ∧
    ∃ e, parse "Größe<é§>" = .error e ∧ e.span = ⟨10, 2⟩ ∧ e.span.Within "Größe<é§>" := by
  constructor
  · have hread : parse " Map<Key, List <int>[ ] []>" = .ok ⟨"Map", [⟨"Key", [], 0, ⟨5, 3⟩⟩,
        ⟨"List", [⟨"int", [], 0, ⟨16, 3⟩⟩], 2, ⟨10, 4⟩⟩], 0, ⟨1, 3⟩⟩ := by decide +kernel
    obtain ⟨hgrammar, hnamed, -⟩ := type_text_grammar " Map<Key, List <int>[ ] []>"
    refine ⟨_, hread, (hgrammar _).1 hread, hnamed _ _ hread ?_⟩
    exact .arg (.tail _ (.head _)) (.arg (.head _) .self)
  · have hread : parse "Größe<é§>" = .error ⟨.missingSeparator, ⟨10, 2⟩⟩ := by decide +kernel
    exact ⟨_, hread, rfl, (type_text_grammar "Größe<é§>").2.2 _ hread⟩

end SharpSmith.WrittenType
