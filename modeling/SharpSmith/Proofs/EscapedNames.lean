import SharpSmith.Proofs.TypeNames

/-!
# Escaped names

The mark `@` before a name is no part of the identifier that the name stands for. The names in one
scope of a valid manifest are spelled differently, but two of them stand for the same identifier
when one is the other with the mark. `identifiers_distinct_iff` says that this is the only way,
`identifier_declared_twice` that it does happen.
-/

namespace SharpSmith

/-- The identifier that a name stands for: the name without the mark that escapes it. -/
def identifierOf (name : String) : String :=
  match name.toList with
  | '@' :: cs => String.ofList cs
  | _ => name

/-- A mark before a name does not belong to the identifier. -/
lemma identifierOf_marked {name : String} : identifierOf ("@" ++ name) = name := by
  have hmark : ("@" ++ name).toList = '@' :: name.toList := by
    rw [String.toList_append]
    rfl
  rw [identifierOf, hmark]
  exact String.ofList_toList

/-- A name is the identifier that it stands for, or that with the mark. -/
lemma eq_identifierOf (name : String) :
    name = identifierOf name ∨ name = "@" ++ identifierOf name := by
  unfold identifierOf
  split
  case h_1 cs h => exact .inr (String.toList_inj.1 (by simp [h]))
  case h_2 => exact .inl rfl

/-- A name that may be marked stands for itself. -/
lemma identifierOf_of_marked {name : String} (h : IsIdentifier ("@" ++ name).toList) :
    identifierOf name = name := by
  have hword : IsWord name.toList := by
    rw [String.toList_append] at h
    cases h with
    | bare hw => exact absurd rfl hw.head?_ne
    | escaped hw => exact hw
  unfold identifierOf
  split
  case h_1 cs h => exact absurd (by rw [h]; rfl) hword.head?_ne
  case h_2 => rfl

/-- Two names stand for the same identifier just if they are the same but for the mark. -/
lemma identifierOf_eq_iff {a b : String} (ha : IsIdentifier a.toList) (hb : IsIdentifier b.toList) :
    identifierOf a = identifierOf b ↔ a = b ∨ b = "@" ++ a ∨ a = "@" ++ b := by
  constructor
  · intro h
    rcases eq_identifierOf a with ea | ea <;> rcases eq_identifierOf b with eb | eb
    · exact .inl (by rw [ea, eb, h])
    · exact .inr (.inl (by rw [ea, h, ← eb]))
    · exact .inr (.inr (by rw [eb, ← h, ← ea]))
    · exact .inl (by rw [ea, eb, h])
  · rintro (rfl | rfl | rfl)
    · rfl
    · rw [identifierOf_marked, identifierOf_of_marked hb]
    · rw [identifierOf_marked, identifierOf_of_marked ha]

/-- Identifiers that are spelled differently are different, unless one of them stands beside itself
with the mark. -/
lemma nodup_identifierOf_iff {names : List String} (hdistinct : names.Nodup)
    (hnames : ∀ n ∈ names, IsIdentifier n.toList) :
    (names.map identifierOf).Nodup ↔ ∀ n ∈ names, "@" ++ n ∉ names := by
  rw [List.nodup_map_iff_inj_on hdistinct]
  constructor
  · intro hinj n hn hmarked
    have hsame : identifierOf ("@" ++ n) = identifierOf n := by
      rw [identifierOf_marked, identifierOf_of_marked (hnames _ hmarked)]
    -- a name is shorter than itself with the mark
    have hlength := congrArg String.length (hinj _ hmarked n hn hsame)
    rw [String.length_append] at hlength
    exact absurd hlength (by simp)
  · intro hmarked a ha b hb h
    rcases (identifierOf_eq_iff (hnames a ha) (hnames b hb)).1 h with e | e | e
    · exact e
    · exact absurd (e ▸ hb) (hmarked a ha)
    · exact absurd (e ▸ ha) (hmarked b hb)

namespace Manifest

/-- The names in each scope: those of all declarations, and those of the parameters of each method,
constructor and record. -/
def scopes (m : Manifest) : List (List String) :=
  m.definitions.map (fun d => d.name.value) ::
    m.definitions.flatMap fun d => d.parameterLists.map fun ps => ps.map fun p => p.name.value

/-- In each scope of a valid manifest the names are identifiers, and no two are spelled alike. -/
lemma scopes_of_validate {m : Manifest} (hv : m.validate = .ok ()) :
    ∀ names ∈ m.scopes, names.Nodup ∧ ∀ n ∈ names, IsIdentifier n.toList := by
  obtain ⟨-, -, hnamed, hdistinct⟩ := validate_eq_ok_iff.1 hv
  refine List.forall_mem_cons.2 ⟨⟨hdistinct, ?_⟩, ?_⟩
  · exact List.forall_mem_map.2 fun d hd => (hnamed d hd).name
  · intro names h
    obtain ⟨d, hd, h⟩ := List.mem_flatMap.1 h
    obtain ⟨ps, hps, rfl⟩ := List.mem_map.1 h
    have hparameters := (hnamed d hd).parameters ps hps
    exact ⟨hparameters.distinct, List.forall_mem_map.2 hparameters.identifiers⟩

/-- In each scope of a valid manifest no name is spelled twice, and no identifier is declared twice
just if no name stands there both with the mark and without it. -/
theorem identifiers_distinct_iff {m : Manifest} (hv : m.validate = .ok ()) :
    ∀ names ∈ m.scopes, names.Nodup ∧
      ((names.map identifierOf).Nodup ↔ ∀ n ∈ names, "@" ++ n ∉ names) := by
  intro names h
  obtain ⟨hdistinct, hnames⟩ := scopes_of_validate hv names h
  exact ⟨hdistinct, nodup_identifierOf_iff hdistinct hnames⟩

/-- A manifest with two classes. -/
def declaringBoth (first second : String) : Manifest :=
  { declaring first with classes := [emptyClass first, emptyClass second] }

/-- The manifest declares its two classes in order. -/
lemma definitions_declaringBoth (first second : String) :
    (declaringBoth first second).definitions =
      [.ofClass (emptyClass first), .ofClass (emptyClass second)] := by
  simp [definitions, declaringBoth, declaring, List.mergeSort,
    List.MergeSort.Internal.splitInTwo, Definition.name, emptyClass]

/-- The names of both classes stand in one scope. -/
lemma mem_scopes_declaringBoth (first second : String) :
    [first, second] ∈ (declaringBoth first second).scopes := by
  rw [scopes, definitions_declaringBoth]
  exact .head _

/-- The mark does not take a reserved word for a name that differs from it in one letter. -/
theorem identifiers_distinct_event :
    (declaringBoth "@event" "Event").validate = .ok () ∧
      (["@event", "Event"].map identifierOf).Nodup := by
  have hv : (declaringBoth "@event" "Event").validate = .ok () := by
    rw [validate, definitions_declaringBoth]
    decide
  have hscope := mem_scopes_declaringBoth "@event" "Event"
  exact ⟨hv, (identifiers_distinct_iff hv _ hscope).2.2 (by decide)⟩

/-- Not every valid manifest declares different identifiers: a class may be declared without the
mark and again with it. -/
theorem identifier_declared_twice :
    ¬∀ m : Manifest, m.validate = .ok () →
      ∀ names ∈ m.scopes, (names.map identifierOf).Nodup := by
  intro h
  have hv : (declaringBoth "Event" "@Event").validate = .ok () := by
    rw [validate, definitions_declaringBoth]
    decide
  exact absurd (h _ hv _ (mem_scopes_declaringBoth "Event" "@Event")) (by decide)

end Manifest

end SharpSmith
