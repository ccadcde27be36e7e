import SharpSmith.Proofs.Lowering

/-!
# Where syntax errors are shown

A manifest holds code in the lines of bodies and in the arguments of attributes and of base calls.
A syntax error in building is that of the first piece of code that cannot be read. It is shown at
the piece itself if that is a line, but at the type of the attribute if it is an argument of one.
-/

namespace SharpSmith

open Build

/-- A piece of code in a manifest: a line of a body, an argument of an attribute, or one that a
constructor passes to the base class. `owner` is the attribute, or the name of the class. -/
inductive Snippet where
  | line (line : Quoted)
  | argument (owner : AttributeEntry) (text : Quoted)
  | baseArgument (owner : Quoted) (text : String)
  deriving Repr, DecidableEq, Inhabited

/-- The failure that a result is, if it is one. -/
def failure? {ε α : Type} : Except ε α → Option ε
  | .error e => some e
  | .ok _ => none

namespace Snippet

/-- Why a piece of code cannot be read, if it cannot. -/
def fault? : Snippet → Option SyntaxError
  | .line q => failure? (Statement.parseLine q.value)
  | .argument _ q => failure? (Expression.parse q.value)
  | .baseArgument _ text => failure? (Expression.parse text)

/-- The text of a piece of code, if a manifest knows its place. -/
def text? : Snippet → Option Quoted
  | .line q => some q
  | .argument _ q => some q
  | .baseArgument _ _ => none

/-- The text at whose place an error in a piece of code is shown. -/
def label : Snippet → Quoted
  | .line q => q
  | .argument a _ => a.type
  | .baseArgument owner _ => owner

/-- The error that a piece of code gives, and its place. -/
def report? (s : Manifest.Scope) (x : Snippet) : Option (SyntaxError × Option Span) :=
  x.fault?.map fun e => (e, some (s.placeOf x.label))

end Snippet

/-- The code in an attribute. -/
def AttributeEntry.snippets (a : AttributeEntry) : List Snippet :=
  a.args.map (.argument a)

/-- The code in a property. -/
def PropertyEntry.snippets (p : PropertyEntry) : List Snippet :=
  p.attributes.flatMap AttributeEntry.snippets

/-- The code in a base call of a constructor. -/
def BaseEntry.snippets (owner : Quoted) : BaseEntry → List Snippet
  | .keyword _ => []
  | .args texts => texts.map (.baseArgument owner)

/-- The code in a constructor of the class called `owner`, in the order in which it is read. -/
def ConstructorEntry.snippets (owner : Quoted) (k : ConstructorEntry) : List Snippet :=
  k.base.toList.flatMap (BaseEntry.snippets owner) ++
    k.attributes.flatMap AttributeEntry.snippets ++ k.body.map .line

/-- The code in a method. -/
def MethodEntry.snippets (m : MethodEntry) : List Snippet :=
  m.attributes.flatMap AttributeEntry.snippets ++ (m.body.getD []).map .line

/-- The code in a declaration, in the order in which it is read. -/
def Definition.snippets (d : Definition) : List Snippet :=
  d.attributes.flatMap AttributeEntry.snippets ++ d.properties.flatMap PropertyEntry.snippets ++
    d.constructors.flatMap (ConstructorEntry.snippets d.name) ++
    d.methods.flatMap MethodEntry.snippets

/-- The code in a manifest, in the order in which it is read. -/
def Manifest.snippets (m : Manifest) : List Snippet :=
  m.definitions.flatMap Definition.snippets

/-- The syntax error that a failure is, and its place as it is seen from a call at `outer`. -/
def Build.Failure.syntax? (outer : Option Span) (f : Failure) :
    Option (SyntaxError × Option Span) :=
  match f.error with
  | .malformed e => some (e, f.place <|> outer)
  | _ => none

/-- The syntax error that the failure of a manifest is, and its place. -/
def ManifestError.syntax? : ManifestError → Option (SyntaxError × Option Span)
  | .build (.malformed e) place => some (e, place)
  | _ => none

namespace Manifest

variable {s : Scope} {ε α β σ : Type} {syntax? : ε → Option (SyntaxError × Option Span)}

/-- What comes of reading pieces of code: there is a result only if none of them gives an error, and
a syntax error, which `syntax?` tells from other failures, is that of the first one that does. -/
structure Reads (s : Scope) (syntax? : ε → Option (SyntaxError × Option Span))
    (xs : List Snippet) (r : Except ε α) : Prop where
  passes : ∀ a, r = .ok a → xs.findSome? (Snippet.report? s) = none
  blames : ∀ f y, r = .error f → syntax? f = some y → xs.findSome? (Snippet.report? s) = some y

namespace Reads

/-- What fails with no syntax error reads nothing. -/
lemma quiet {r : Except ε α} (h : ∀ f, r = .error f → syntax? f = none) : Reads s syntax? [] r where
  passes _ _ := rfl
  blames f y hf hy := by
    rw [h f hf] at hy
    cases hy

/-- What succeeds reads nothing that could be at fault. -/
lemma ok (a : α) : Reads s syntax? [] (.ok a : Except ε α) :=
  quiet fun _ h => by cases h

/-- Reading first one list and then another is reading them together. -/
lemma bind {xs ys : List Snippet} {r : Except ε α} {f : α → Except ε β} (hr : Reads s syntax? xs r)
    (hf : ∀ a, r = .ok a → Reads s syntax? ys (f a)) : Reads s syntax? (xs ++ ys) (r >>= f) where
  passes b hb := by
    obtain ⟨a, ha, hb⟩ := bind_eq_ok_iff.1 hb
    rw [List.findSome?_append, hr.passes a ha, (hf a ha).passes b hb]
    rfl
  blames e y he hy := by
    rw [List.findSome?_append]
    rcases bind_eq_error_iff.1 he with he | ⟨a, ha, he⟩
    · rw [hr.blames e y he hy]
      rfl
    · rw [hr.passes a ha, (hf a ha).blames e y he hy]
      rfl

/-- What is read before something that reads nothing. -/
lemma bind_quiet {xs : List Snippet} {r : Except ε α} {f : α → Except ε β}
    (hr : Reads s syntax? xs r) (hf : ∀ a, r = .ok a → Reads s syntax? [] (f a)) :
    Reads s syntax? xs (r >>= f) := by
  have h := hr.bind hf
  rwa [List.append_nil] at h

/-- What becomes of a result afterwards does not change what was read for it. -/
lemma map {xs : List Snippet} {r : Except ε α} (hr : Reads s syntax? xs r) (f : α → β) :
    Reads s syntax? xs (r.map f) where
  passes b hb := by
    obtain ⟨a, ha, -⟩ := map_eq_ok_iff.1 hb
    exact hr.passes a ha
  blames e y he hy := by
    cases r with
    | ok a => cases he
    | error e' =>
      cases he
      exact hr.blames _ y rfl hy

/-- Reading what several entries hold, one after the other. -/
lemma mapM {snippets : β → List Snippet} {f : β → Except ε α}
    (h : ∀ x, Reads s syntax? (snippets x) (f x)) (xs : List β) :
    Reads s syntax? (xs.flatMap snippets) (xs.mapM f) := by
  induction xs with
  | nil => exact ok []
  | cons x xs ih =>
    rw [List.flatMap_cons, List.mapM_cons]
    exact (h x).bind fun y _ => ih.bind_quiet fun ys _ => ok _

/-- Entries that hold no code are lowered without a syntax error. -/
lemma mapM_quiet {f : β → Except ε α} (h : ∀ x, Reads s syntax? [] (f x)) (xs : List β) :
    Reads s syntax? [] (xs.mapM f) := by
  have hall := mapM h xs
  rwa [List.flatMap_eq_nil_iff.2 fun _ _ => rfl] at hall

end Reads

/-- Failures that are told in another way are the same syntax errors. -/
lemma Reads.mapError {ε' : Type} {syntax' : ε' → Option (SyntaxError × Option Span)} {g : ε → ε'}
    {xs : List Snippet} {r : Except ε α} (hg : ∀ f, syntax' (g f) = syntax? f)
    (hr : Reads s syntax? xs r) : Reads s syntax' xs (r.mapError g) where
  passes a ha := hr.passes a (mapError_eq_ok_iff.1 ha)
  blames e y he hy := by
    cases r with
    | ok a => cases he
    | error f =>
      cases he
      rw [hg] at hy
      exact hr.blames f y rfl hy

/-- Reading one piece of code fails with its error. -/
lemma reads_snippet {x : Snippet} {r : Except SyntaxError α} (hfault : x.fault? = failure? r) :
    Reads s (fun e => some (e, some (s.placeOf x.label))) [x] r where
  passes a ha := by simp [Snippet.report?, hfault, ha, failure?]
  blames e y he hy := by
    cases hy
    simp [Snippet.report?, hfault, he, failure?]

/-- Texts are read as expressions one after the other. -/
lemma reads_parseAll (text : β → String) (snippet : β → Snippet) {place : Span}
    (hfault : ∀ x, (snippet x).fault? = failure? (Expression.parse (text x)))
    (hlabel : ∀ x, s.placeOf (snippet x).label = place) (xs : List β) :
    Reads s (fun e => some (e, some place)) (xs.map snippet)
      (Expression.parseAll (xs.map text)) := by
  induction xs with
  | nil => exact .ok []
  | cons x xs ih =>
    have hread := reads_snippet (s := s) (hfault x)
    rw [hlabel] at hread
    exact hread.bind fun e _ => ih.bind_quiet fun es _ => .ok _

/-- A call that reads code fails with the error of the code. -/
lemma Reads.malformed {r : Except SyntaxError α} {place : Span} {xs : List Snippet}
    (h : Reads s (fun e => some (e, some place)) xs r) :
    Reads s (Failure.syntax? (some place)) xs
      ((r.map fun _ => ()).mapError fun e => ⟨.malformed e, none⟩) :=
  (h.map _).mapError fun _ => rfl

variable {outer : Option Span} {step : α → σ → Run σ}

/-- A call that reads pieces of code, whatever it finds. -/
structure ReadsCall (s : Scope) (outer : Option Span) (step : α → σ → Run σ) (c : Call α)
    (xs : List Snippet) : Prop where
  strict : c.caught = false
  reads : ∀ d, Reads s (Failure.syntax? (c.place <|> outer)) xs (step c.act d).result

/-- Calls that read pieces of code in their order. -/
inductive ReadsAll (s : Scope) (outer : Option Span) (step : α → σ → Run σ) :
    List (Call α) → List Snippet → Prop where
  | nil : ReadsAll s outer step [] []
  | cons {c cs xs ys} :
    ReadsCall s outer step c xs →
    ReadsAll s outer step cs ys →
    ReadsAll s outer step (c :: cs) (xs ++ ys)

namespace ReadsAll

/-- Calls after others read what those read and then what they read. -/
lemma append {cs ds xs ys} (hc : ReadsAll s outer step cs xs) (hd : ReadsAll s outer step ds ys) :
    ReadsAll s outer step (cs ++ ds) (xs ++ ys) := by
  induction hc with
  | nil => exact hd
  | cons h _ ih =>
    rw [List.append_assoc]
    exact .cons h ih

/-- One call reads what it reads. -/
lemma single {c xs} (h : ReadsCall s outer step c xs) : ReadsAll s outer step [c] xs := by
  have hall := ReadsAll.cons h .nil
  rwa [List.append_nil] at hall

/-- The calls that entries are lowered to read what the entries hold. -/
lemma of_mapM {snippets : β → List Snippet} {f : β → Except ManifestError (Call α)}
    {xs : List β} {cs} (h : ∀ x c, f x = .ok c → ReadsCall s outer step c (snippets x))
    (hcs : xs.mapM f = .ok cs) :
    ReadsAll s outer step cs (xs.flatMap snippets) := by
  have hcalls := mapM_eq_ok_iff.1 hcs
  clear hcs
  induction hcalls with
  | nil => exact .nil
  | cons hx _ ih => exact .cons (h _ _ hx) ih

/-- Calls that cannot fail read nothing. -/
lemma after_quiet {f : β → α} (h : ∀ x d, (step (f x) d).result = .ok ()) (xs : List β) {cs ys}
    (hcs : ReadsAll s outer step cs ys) :
    ReadsAll s outer step (xs.map (fun x => .plain (f x)) ++ cs) ys := by
  induction xs with
  | nil => exact hcs
  | cons x xs ih =>
    have hx : ReadsCall s outer step (.plain (f x)) [] := by
      refine ⟨rfl, fun d => ?_⟩
      rw [Call.plain, h]
      exact .ok ()
    exact .cons hx ih

end ReadsAll

/-- A call tells its place to failures that have none. -/
lemma ReadsCall.run {c : Call α} {xs d} (h : ReadsCall s outer step c xs) :
    Reads s (Failure.syntax? outer) xs (c.run step d).result := by
  have hrun : (c.run step d).result =
      (step c.act d).result.mapError fun f => ⟨f.error, f.place <|> c.place⟩ := by
    unfold Call.run
    dsimp only
    cases hr : (step c.act d).result with
    | ok u => rw [hr]; rfl
    | error e => rfl
  rw [hrun]
  refine (h.reads d).mapError fun f => ?_
  unfold Failure.syntax?
  dsimp only
  cases f.error <;> simp [Option.or_assoc]

/-- Calls that are not caught run one after the other. -/
lemma ReadsAll.runAll {cs xs d} (h : ReadsAll s outer step cs xs) :
    Reads s (Failure.syntax? outer) xs (Call.runAll step cs d).result := by
  induction h generalizing d with
  | nil => exact .ok ()
  | @cons c cs xs ys hc _ ih =>
    have hrun : (Call.runAll step (c :: cs) d).result =
        (c.run step d).result >>= fun _ => (Call.runAll step cs (c.run step d).state).result := by
      rw [Call.runAll]
      cases hr : (c.run step d).result with
      | ok u => rfl
      | error e =>
        -- the call is not caught, so the rest is not run
        simp only [hr, hc.strict, Bool.false_eq_true, if_false]
        rfl
    rw [hrun]
    exact hc.run.bind fun _ _ => ih

/-- Resolving a type fails with no syntax error. -/
lemma quiet_resolve (q : Quoted) : Reads s ManifestError.syntax? [] (s.resolve q) := by
  refine .quiet fun f hf => ?_
  unfold Scope.resolve at hf
  dsimp only at hf
  split at hf
  case h_1 =>
    cases hf
    rfl
  case h_2 =>
    split at hf
    case h_1 =>
      cases hf
      rfl
    case h_2 => cases hf

/-- Reading a modifier fails with no syntax error. -/
lemma quiet_modifier (q : Quoted) : Reads s ManifestError.syntax? [] (s.modifier q) := by
  refine .quiet fun f hf => ?_
  unfold Scope.modifier at hf
  split at hf
  case h_1 => cases hf
  case h_2 =>
    cases hf
    rfl

/-- Reading a visibility fails with no syntax error. -/
lemma quiet_visibility (q : Quoted) : Reads s ManifestError.syntax? [] (s.visibility q) := by
  refine .quiet fun f hf => ?_
  unfold Scope.visibility at hf
  split at hf
  case h_1 => cases hf
  case h_2 =>
    cases hf
    rfl

/-- Reading accessors fails with no syntax error. -/
lemma quiet_accessors (inInterface : Bool) (qs : Option (List Quoted)) :
    Reads s ManifestError.syntax? [] (s.accessors inInterface qs) := by
  cases qs with
  | none => exact .ok _
  | some qs =>
    have haccessor (q : Quoted) : Reads s ManifestError.syntax? [] (s.accessor q) := by
      refine .quiet fun f hf => ?_
      unfold Scope.accessor at hf
      split at hf
      case h_1 => cases hf
      case h_2 =>
        cases hf
        rfl
    exact .mapM_quiet haccessor qs

/-- What may be missing fails with no syntax error if it does not when it is there. -/
lemma quiet_option {f : β → Except ManifestError α}
    (h : ∀ x, Reads s ManifestError.syntax? [] (f x)) (x : Option β) :
    Reads s ManifestError.syntax? [] (x.mapM f) := by
  cases x with
  | none => exact .ok _
  | some x => exact (h x).map some

/-- Reading a base call fails with no syntax error. -/
lemma quiet_baseCall {owner : Quoted} (base : Option BaseEntry) :
    Reads s ManifestError.syntax? [] (Scope.baseCall owner base) := by
  refine .quiet fun f hf => ?_
  unfold Scope.baseCall at hf
  split at hf
  case h_1 => cases hf
  case h_2 => cases hf
  case h_3 =>
    split at hf <;> cases hf
    rfl

/-- Resolving the types of parameters fails with no syntax error. -/
lemma quiet_parameters (ds : List ParameterEntry) :
    Reads s ManifestError.syntax? [] (s.parameters ds) := by
  have hparameter (d : ParameterEntry) : Reads s ManifestError.syntax? []
      (s.resolve d.type >>= fun t => .ok (d.name.value, t)) :=
    (quiet_resolve d.type).bind_quiet fun t _ => .ok _
  exact .mapM_quiet hparameter ds

/-- Resolving the types of attributes fails with no syntax error. -/
lemma quiet_attributeCalls (ds : List AttributeEntry) :
    Reads s ManifestError.syntax? [] (s.attributeCalls ds) := by
  have hattribute (d : AttributeEntry) :
      Reads s ManifestError.syntax? [] (s.attributeCall d) :=
    (quiet_resolve d.type).bind_quiet fun t _ => .ok _
  exact .mapM_quiet hattribute ds

/-- The call that applies an attribute reads its arguments, and tells the place of its type. -/
lemma reads_attribute {d : AttributeEntry} {c} (h : s.attributeCall d = .ok c) :
    ReadsCall s outer AttributeStep.run c d.snippets := by
  obtain ⟨t, -, hc⟩ := bind_eq_ok_iff.1 h
  cases hc
  refine ⟨rfl, fun draft => ?_⟩
  cases hempty : d.args.isEmpty with
  | true =>
    -- another call is made then, which cannot fail
    rw [AttributeEntry.snippets, List.isEmpty_iff.1 hempty]
    simp only [Scope.call, Call.placed, if_true]
    exact .ok ()
  | false =>
    have hread : Reads s (Failure.syntax? (some (s.placeOf d.type))) d.snippets _ :=
      (reads_parseAll Quoted.value (.argument d) (fun _ => rfl) (fun _ => rfl) d.args).malformed
    simp only [Scope.call, Call.placed, Bool.false_eq_true, if_false, AttributeStep.run]
    cases hargs : Expression.parseAll (d.args.map Quoted.value) <;> rw [hargs] at hread <;>
      exact hread

/-- Attributes are collected before they count, and fail as their collection does. -/
lemma reads_attributes {put : AttributesDraft → σ} {before : σ} {needs}
    {ds : List AttributeEntry} {calls} (h : s.attributeCalls ds = .ok calls) :
    Reads s (Failure.syntax? outer) (ds.flatMap AttributeEntry.snippets)
      ((AttributeStep.collect calls needs).commit put before).result := by
  rw [Run.commit_result]
  exact (ReadsAll.of_mapM (fun _ _ => reads_attribute) h).runAll

/-- The call that adds a property reads its attributes. -/
lemma reads_property {inInterface} {d : PropertyEntry} {c}
    (h : s.propertyCall inInterface d = .ok c) :
    ReadsCall s outer PropertyStep.run c d.snippets := by
  simp only [Scope.propertyCall, bind_eq_ok_iff] at h
  obtain ⟨access, -, accessors, -, type, -, attributes, hattributes, h⟩ := h
  cases h
  have hattributes : ReadsCall s (some (s.placeOf d.name)) HandleStep.run
      (.plain (.attributes attributes)) d.snippets := ⟨rfl, fun _ => reads_attributes hattributes⟩
  have hdetails : ReadsAll s (some (s.placeOf d.name)) HandleStep.run
      (accessors.map (fun a => .plain (.accessor a)) ++
        d.doc.toList.map (fun text => .plain (.doc text)) ++ [.plain (.attributes attributes)])
      d.snippets := by
    rw [List.append_assoc]
    exact .after_quiet (fun _ _ => rfl) _ (.after_quiet (fun _ _ => rfl) _
      (.single hattributes))
  refine ⟨rfl, fun draft => ?_⟩
  cases access with
  | none => exact hdetails.runAll
  | some m =>
    have hmodifier : ReadsCall s (some (s.placeOf d.name)) HandleStep.run
        (.plain (.modifier m)) [] := ⟨rfl, fun _ => .ok ()⟩
    cases m with
    -- a private property is added by a call of its own, with no modifier among the others
    | privateAccess => exact hdetails.runAll
    | _ => exact (ReadsAll.cons hmodifier hdetails).runAll

/-- The call that writes a line reads it, and tells its own place. -/
lemma reads_line (line : Quoted) :
    ReadsCall s outer BodyStep.run (s.call line (.line line.value)) [.line line] := by
  refine ⟨rfl, fun body => ?_⟩
  have hread := (reads_snippet (s := s) (x := .line line) rfl).malformed
  show Reads s (Failure.syntax? (some (s.placeOf line))) _ (BodyStep.addLine line.value body).result
  unfold BodyStep.addLine
  cases hline : Statement.parseLine line.value <;> rw [hline] at hread <;> exact hread

/-- The calls for the lines of a body read those lines. -/
lemma reads_lines (lines : List Quoted) :
    ReadsAll s outer BodyStep.run (s.lineCalls lines) (lines.map Snippet.line) := by
  induction lines with
  | nil => exact .nil
  | cons line lines ih => exact .cons (reads_line line) ih

/-- What a constructor passes to the base class is read at the place of the name of the class. -/
lemma reads_base {owner : Quoted} {base : Option BaseEntry} {acts}
    (h : Scope.baseCall owner base = .ok acts) :
    ReadsAll s (some (s.placeOf owner)) ConstructorStep.run (acts.map Call.plain)
      (base.toList.flatMap (BaseEntry.snippets owner)) := by
  unfold Scope.baseCall at h
  split at h
  case h_1 =>
    cases h
    exact .nil
  case h_2 args =>
    cases h
    have hcall : ReadsCall s (some (s.placeOf owner)) ConstructorStep.run
        (.plain (.mapBaseWith args)) (args.map (.baseArgument owner)) := by
      refine ⟨rfl, fun k => ?_⟩
      have hread : Reads s (Failure.syntax? (some (s.placeOf owner)))
          (args.map (.baseArgument owner)) _ :=
        (reads_parseAll id (.baseArgument owner) (fun _ => rfl) (fun _ => rfl) args).malformed
      rw [List.map_id] at hread
      simp only [Call.plain, ConstructorStep.run]
      cases hargs : Expression.parseAll args <;> rw [hargs] at hread <;> exact hread
    exact .cons hcall .nil
  case h_3 word =>
    split at h
    case isFalse => cases h
    case isTrue =>
      cases h
      exact .single ⟨rfl, fun _ => .ok ()⟩

variable {kind : DeclarationKind}

/-- A constructor is added only when its calls succeed. A second one that takes the same fails, but
with no syntax error. -/
lemma reads_addConstructor {d : Draft kind} {calls xs}
    (h : ReadsAll s outer ConstructorStep.run calls xs) :
    Reads s (Failure.syntax? outer) xs (d.addConstructor calls).result := by
  have hread := h.runAll (d := .new d.dependencies d.name)
  unfold Draft.addConstructor
  dsimp only
  split
  case h_1 e he =>
    rw [he] at hread
    exact hread
  case h_2 hok =>
    rw [hok] at hread
    refine ⟨fun _ _ => hread.passes _ rfl, fun f y hf hy => ?_⟩
    split at hf <;> cases hf
    cases hy

/-- The call that adds a constructor reads its base call, its attributes and its body. -/
lemma reads_constructor {owner : Quoted} {d : ConstructorEntry} {c}
    (h : s.constructorCall owner d = .ok c) :
    ReadsCall s outer DeclarationStep.run c (d.snippets owner) := by
  simp only [Scope.constructorCall, bind_eq_ok_iff] at h
  obtain ⟨parameters, -, access, -, attributes, hattributes, base, hbase, h⟩ := h
  cases h
  have hattributes : ReadsCall s (some (s.placeOf owner)) ConstructorStep.run
      (.plain (.attributes attributes)) (d.attributes.flatMap AttributeEntry.snippets) :=
    ⟨rfl, fun _ => reads_attributes hattributes⟩
  have hbody : ReadsCall s (some (s.placeOf owner)) ConstructorStep.run
      (.plain (.bodyWith (s.lineCalls d.body))) (d.body.map .line) :=
    ⟨rfl, fun _ => (reads_lines d.body).runAll⟩
  refine ⟨rfl, fun draft => reads_addConstructor ?_⟩
  rw [ConstructorEntry.snippets]
  simp only [List.append_assoc]
  exact .after_quiet (fun _ _ => rfl) _ (.after_quiet (fun _ _ => rfl) _
    (.after_quiet (fun _ _ => rfl) _ ((reads_base hbase).append
      (.cons hattributes (.single hbody)))))

/-- The call that adds a method reads its attributes and its body. -/
lemma reads_method {d : MethodEntry} {c : Call (DeclarationStep kind)}
    (h : s.methodCall d = .ok c) : ReadsCall s outer DeclarationStep.run c d.snippets := by
  simp only [Scope.methodCall, bind_eq_ok_iff] at h
  obtain ⟨returns, -, parameters, -, modifiers, -, attributes, hattributes, h⟩ := h
  cases h
  have hattributes : ReadsCall s (some (s.placeOf d.name)) MethodStep.run
      (.plain (.attributes attributes)) (d.attributes.flatMap AttributeEntry.snippets) :=
    ⟨rfl, fun _ => reads_attributes hattributes⟩
  have hbody : ReadsAll s (some (s.placeOf d.name)) MethodStep.run
      (d.body.toList.map fun lines => .plain (.bodyWith (s.lineCalls lines)))
      ((d.body.getD []).map .line) := by
    cases d.body with
    | none => exact .nil
    | some lines => exact .single ⟨rfl, fun _ => (reads_lines lines).runAll⟩
  refine ⟨rfl, fun draft => ?_⟩
  show Reads s _ _ (Run.commit _ _ _).result
  rw [Run.commit_result, MethodEntry.snippets]
  refine ReadsAll.runAll ?_
  simp only [List.append_assoc]
  exact .after_quiet (fun _ _ => rfl) _ (.after_quiet (fun _ _ => rfl) _
    (.after_quiet (fun _ _ => rfl) _ (.after_quiet (fun _ _ => rfl) _
      (.cons hattributes hbody))))

/-- A part of a plan: lowering it gives no syntax error, and its call reads pieces of code. -/
structure ReadsPart (s : Scope) (x : Except ManifestError (Call (DeclarationStep kind)))
    (xs : List Snippet) : Prop where
  lowered : Reads s ManifestError.syntax? [] x
  called : ∀ c, x = .ok c → ReadsCall s none DeclarationStep.run c xs

/-- The parts of a plan read pieces of code in their order. -/
inductive ReadsPlan (s : Scope) : Plan kind → List Snippet → Prop where
  | nil : ReadsPlan s [] []
  | cons {x plan xs ys} :
    ReadsPart s x xs →
    ReadsPlan s plan ys →
    ReadsPlan s (x :: plan) (xs ++ ys)

namespace ReadsPlan

/-- A plan after another one reads what that one reads and then what it reads. -/
lemma append {plan plan' : Plan kind} {xs ys} (h : ReadsPlan s plan xs)
    (h' : ReadsPlan s plan' ys) : ReadsPlan s (plan ++ plan') (xs ++ ys) := by
  induction h with
  | nil => exact h'
  | cons hx _ ih =>
    rw [List.append_assoc]
    exact .cons hx ih

/-- A plan of one part reads what the part reads. -/
lemma single {x : Except ManifestError (Call (DeclarationStep kind))} {xs}
    (h : ReadsPart s x xs) : ReadsPlan s [x] xs := by
  have hall := ReadsPlan.cons h .nil
  rwa [List.append_nil] at hall

/-- A plan of parts of one sort reads what each of them reads, in order. -/
lemma map {f : β → Except ManifestError (Call (DeclarationStep kind))}
    {snippets : β → List Snippet} (h : ∀ x, ReadsPart s (f x) (snippets x)) (xs : List β) :
    ReadsPlan s (xs.map f) (xs.flatMap snippets) := by
  induction xs with
  | nil => exact .nil
  | cons x xs ih => exact .cons (h x) ih

/-- Parts without code before others. -/
lemma after_quiet {f : β → Except ManifestError (Call (DeclarationStep kind))}
    (h : ∀ x, ReadsPart s (f x) []) (xs : List β) {plan ys} (hplan : ReadsPlan s plan ys) :
    ReadsPlan s (xs.map f ++ plan) ys := by
  induction xs with
  | nil => exact hplan
  | cons x xs ih => exact .cons (h x) ih

/-- Running a plan reads what its parts read. -/
lemma run {plan : Plan kind} {xs d} (h : ReadsPlan s plan xs) :
    Reads s ManifestError.syntax? xs (plan.run d) := by
  induction h generalizing d with
  | nil => exact .ok d
  | @cons x plan xs ys hx _ ih =>
    have hrun : Plan.run (x :: plan) d = x >>= fun c =>
        ((c.run DeclarationStep.run d).result.mapError fun f => .build f.error f.place) >>=
          fun _ => Plan.run plan (c.run DeclarationStep.run d).state := by
      cases x with
      | error e => rfl
      | ok c =>
        rw [Plan.run, ok_bind]
        cases hr : (c.run DeclarationStep.run d).result with
        | ok u => simp only; rfl
        | error f => simp only; rfl
    have htold : ∀ f : Failure,
        ManifestError.syntax? (.build f.error f.place) = Failure.syntax? none f := by
      intro f
      unfold Failure.syntax? ManifestError.syntax?
      cases f.error <;> simp
    rw [hrun]
    refine hx.lowered.bind fun c hc => ?_
    exact ((hx.called c hc).run.mapError htold).bind fun _ _ => ih

end ReadsPlan

/-- An interface is refused with no syntax error. -/
lemma quiet_addInterface {d : Draft kind} {type} :
    Reads s (Failure.syntax? outer) [] (d.addInterface type).result := by
  unfold Draft.addInterface
  split
  case isTrue => exact .ok ()
  case isFalse =>
    refine .quiet fun f hf => ?_
    cases hf
    rfl

/-- A base class is refused with no syntax error. -/
lemma quiet_setBase {d : Draft kind} {type} :
    Reads s (Failure.syntax? outer) [] (d.setBase type).result := by
  unfold Draft.setBase
  split
  case isTrue =>
    refine .quiet fun f hf => ?_
    cases hf
    rfl
  case isFalse =>
    split
    case h_1 =>
      refine .quiet fun f hf => ?_
      cases hf
      rfl
    case h_2 => exact .ok ()

/-- A part whose call is made of what a text means. -/
lemma readsPart_map {x : Except ManifestError α} {call : α → Call (DeclarationStep kind)} {xs}
    (hx : Reads s ManifestError.syntax? [] x)
    (hcall : ∀ a, x = .ok a → ReadsCall s none DeclarationStep.run (call a) xs) :
    ReadsPart s (x.map call) xs where
  lowered := hx.map call
  called c hc := by
    obtain ⟨a, ha, rfl⟩ := map_eq_ok_iff.1 hc
    exact hcall a ha

/-- The head of a plan reads the attributes of the declaration. -/
lemma reads_headPlan {doc : Option String} {modifiers : List Quoted}
    {attributes : List AttributeEntry} :
    ReadsPlan s (s.headPlan doc modifiers attributes : Plan kind)
      (attributes.flatMap AttributeEntry.snippets) := by
  have hdoc (text : String) : ReadsPart s
      (.ok (.plain (.doc text)) : Except ManifestError (Call (DeclarationStep kind))) [] :=
    ⟨.ok _, fun c hc => by cases hc; exact ⟨rfl, fun _ => .ok ()⟩⟩
  have hmodifier (q : Quoted) : ReadsPart s ((s.modifier q).map fun m =>
      (.plain (.modifier m) : Call (DeclarationStep kind))) [] :=
    readsPart_map (quiet_modifier q) fun m _ => ⟨rfl, fun _ => .ok ()⟩
  have hattributes : ReadsPart s ((s.attributeCalls attributes).map fun calls =>
      (.plain (.attributes calls) : Call (DeclarationStep kind)))
      (attributes.flatMap AttributeEntry.snippets) :=
    readsPart_map (quiet_attributeCalls attributes) fun calls hcalls =>
      ⟨rfl, fun _ => reads_attributes hcalls⟩
  rw [Scope.headPlan, List.append_assoc]
  exact .after_quiet hdoc _ (.after_quiet hmodifier _ (.single hattributes))

/-- Extending a type reads no fragment. -/
lemma reads_extend (q : Quoted) :
    ReadsPart s (s.extendCall q : Except ManifestError (Call (DeclarationStep kind))) [] := by
  refine readsPart_map (quiet_resolve q) fun type _ => ⟨rfl, fun d => ?_⟩
  show Reads s _ [] (if d.inInterface then d.addInterface type else d.setBase type).result
  split
  case isTrue => exact quiet_addInterface
  case isFalse => exact quiet_setBase

/-- Implementing an interface reads no fragment. -/
lemma reads_implement {allowed : kind ≠ .interfaceDecl} (q : Quoted) :
    ReadsPart s (s.implementCall allowed q) [] :=
  readsPart_map (quiet_resolve q) fun _ _ => ⟨rfl, fun _ => quiet_addInterface⟩

/-- The part of a plan that adds properties reads their attributes. -/
lemma reads_properties {inInterface} (ds : List PropertyEntry) :
    ReadsPart s
      (s.propertiesCall inInterface ds : Except ManifestError (Call (DeclarationStep kind)))
      (ds.flatMap PropertyEntry.snippets) := by
  have hlowered (d : PropertyEntry) :
      Reads s ManifestError.syntax? [] (s.propertyCall inInterface d) := by
    rw [Scope.propertyCall]
    exact (quiet_option quiet_visibility _).bind_quiet fun _ _ =>
      (quiet_accessors _ _).bind_quiet fun _ _ => (quiet_resolve _).bind_quiet fun _ _ =>
        (quiet_attributeCalls _).bind_quiet fun _ _ => .ok _
  refine readsPart_map (.mapM_quiet hlowered ds) fun calls hcalls => ⟨rfl, fun draft => ?_⟩
  show Reads s _ _ (Run.commit _ _ _).result
  rw [Run.commit_result]
  exact (ReadsAll.of_mapM (fun _ _ => reads_property) hcalls).runAll

/-- The part of a plan for a constructor reads the fragments of the constructor. -/
lemma part_constructor {owner : Quoted} (d : ConstructorEntry) :
    ReadsPart s (s.constructorCall owner d) (d.snippets owner) where
  lowered := by
    rw [Scope.constructorCall]
    exact (quiet_parameters _).bind_quiet fun _ _ => (quiet_option quiet_visibility _).bind_quiet
      fun _ _ => (quiet_attributeCalls _).bind_quiet fun _ _ => (quiet_baseCall _).bind_quiet
        fun _ _ => .ok _
  called _ := reads_constructor

/-- The part of a plan for a method reads the fragments of the method. -/
lemma part_method (d : MethodEntry) :
    ReadsPart s (s.methodCall d : Except ManifestError (Call (DeclarationStep kind)))
      d.snippets where
  lowered := by
    rw [Scope.methodCall]
    exact (quiet_option quiet_resolve _).bind_quiet fun _ _ => (quiet_parameters _).bind_quiet
      fun _ _ => (Reads.mapM_quiet quiet_modifier _).bind_quiet fun _ _ =>
        (quiet_attributeCalls _).bind_quiet fun _ _ => .ok _
  called _ := reads_method

/-- The plan of a class reads the fragments of the class. -/
lemma reads_classPlan (d : ClassEntry) :
    ReadsPlan s (s.classPlan d) (Definition.ofClass d).snippets := by
  rw [Scope.classPlan, Definition.snippets]
  simp only [List.append_assoc]
  exact reads_headPlan.append (.after_quiet reads_extend _ (.after_quiet reads_implement _
    (.cons (reads_properties d.properties) ((ReadsPlan.map part_constructor d.constructors).append
      (.map part_method d.methods)))))

/-- The plan of an interface reads the fragments of the interface. -/
lemma reads_interfacePlan (d : InterfaceEntry) :
    ReadsPlan s (s.interfacePlan d) (Definition.ofInterface d).snippets := by
  rw [Scope.interfacePlan, Definition.snippets]
  simp only [List.append_assoc]
  exact reads_headPlan.append (.after_quiet reads_extend _
    (.cons (reads_properties d.properties) (.map part_method d.methods)))

/-- The plan of a record reads the fragments of the record. -/
lemma reads_recordPlan (d : RecordEntry) :
    ReadsPlan s (s.recordPlan d) (Definition.ofRecord d).snippets := by
  have hparameter (p : ParameterEntry) : ReadsPart s
      ((s.resolve p.type).map fun type => .plain (.parameter p.name.value type)) [] :=
    readsPart_map (quiet_resolve p.type) fun _ _ => ⟨rfl, fun _ => .ok ()⟩
  rw [Scope.recordPlan, Definition.snippets]
  simp only [List.append_assoc]
  exact reads_headPlan.append (.after_quiet hparameter _ (.after_quiet reads_extend _
    (.after_quiet reads_implement _ (.cons (reads_properties d.properties)
      (.map part_method d.methods)))))

/-- Building a declaration reads the fragments of its definition. -/
lemma reads_draft (space : String) (d : Definition) :
    Reads s ManifestError.syntax? d.snippets (draft s space d) := by
  cases d with
  | ofClass d => exact (reads_classPlan d).run.map _
  | ofInterface d => exact (reads_interfacePlan d).run.map _
  | ofRecord d => exact (reads_recordPlan d).run.map _

/-- Building a manifest reads all its code in order. -/
lemma reads_project (m : Manifest) :
    Reads (.ofManifest m) ManifestError.syntax? m.snippets m.project :=
  (Reads.mapM (reads_draft m.space) m.definitions).bind_quiet fun _ _ => .ok _

/-- When a manifest is built without an error, all its code can be read; and when it fails with a
syntax error, that is the error of the first piece of code that cannot be read. It is shown at the
place of the piece itself if that is a line of a body, at the type of the attribute if it is an
argument of one, and at the name of the class if a constructor passes it to the base class. -/
theorem syntax_error_place {m : Manifest} :
    (∀ p, m.project = .ok p → ∀ x ∈ m.snippets, x.fault? = none) ∧
    ∀ e place, m.project = .error (.build (.malformed e) place) →
      ∃ before x after, m.snippets = before ++ x :: after ∧
        (∀ y ∈ before, y.fault? = none) ∧ x.fault? = some e ∧
        place = some ((Scope.ofManifest m).placeOf x.label) := by
  constructor
  · intro p hp x hx
    have hnone := (reads_project m).passes p hp
    rw [List.findSome?_eq_none_iff] at hnone
    simpa [Snippet.report?] using hnone x hx
  · intro e place he
    have hsome := (reads_project m).blames _ (e, place) he rfl
    obtain ⟨before, x, after, hsnippets, hx, hbefore⟩ := List.findSome?_eq_some_iff.1 hsome
    obtain ⟨e', hfault, hplace⟩ := Option.map_eq_some_iff.1 hx
    cases hplace
    refine ⟨before, x, after, hsnippets, fun y hy => ?_, hfault, rfl⟩
    simpa [Snippet.report?] using hbefore y hy

/-- There is a certain failure just if the result is that error. -/
lemma failure?_eq_some_iff {r : Except ε α} {e} : failure? r = some e ↔ r = .error e := by
  cases r <;> simp [failure?]

/-- That building fails with a syntax error is told without its place. -/
lemma exists_place {m : Manifest} {e}
    (h : ((failure? m.project).bind ManifestError.syntax?).map Prod.fst = some e) :
    ∃ place, m.project = .error (.build (.malformed e) place) := by
  obtain ⟨⟨e', place⟩, hsyntax, rfl⟩ := Option.map_eq_some_iff.1 h
  obtain ⟨error, herror, hsyntax⟩ := Option.bind_eq_some_iff.1 hsyntax
  refine ⟨place, ?_⟩
  rw [failure?_eq_some_iff.1 herror]
  unfold ManifestError.syntax? at hsyntax
  split at hsyntax <;> cases hsyntax
  rfl

/-- The place of a text starts with the text or after its quote. -/
lemma offset_placeOf (q : Quoted) :
    (s.placeOf q).offset = q.span.offset ∨ (s.placeOf q).offset = q.span.offset + 1 := by
  unfold Scope.placeOf Document.valueSpan
  split
  case h_1 => split <;> simp
  case h_2 => exact .inl rfl

/-- An attribute with one argument. -/
def remark (argument : String) : AttributeEntry where
  type := ⟨"Obsolete", ⟨91, 10⟩⟩
  args := [⟨argument, ⟨111, argument.utf8ByteSize + 2⟩⟩]

/-- A class with one method that has an attribute, and one line in its body. -/
def remarked (argument line : String) : ClassEntry where
  name := ⟨"A", ⟨34, 3⟩⟩
  doc := none
  modifiers := []
  base := none
  interfaces := []
  attributes := []
  properties := []
  constructors := []
  methods :=
    [{ name := ⟨"M", ⟨64, 3⟩⟩
       returns := none
       parameters := []
       modifiers := []
       body := some [⟨line, ⟨argument.utf8ByteSize + 126, line.utf8ByteSize + 2⟩⟩]
       doc := none
       attributes := [remark argument] }]

/-- The manifest of this class. -/
def remarking (argument line : String) : Manifest where
  space := "N"
  style := .file
  types := .empty
  classes := [remarked argument line]
  interfaces := []
  records := []
  document :=
    ⟨"namespace = \"N\"\n\n[[class]]\nname = \"A\"\n\n[[class.methods]]\nname = \"M\"\n" ++
      "attributes = [\x7b type = \"Obsolete\", args = [\"" ++ argument ++
      "\"] \x7d]\nbody = [\"" ++ line ++ "\"]\n", "csgen.toml"⟩

/-- The fragments of a class with a remark on it and a line in its method. -/
lemma snippets_remarking (argument line : String) :
    (remarking argument line).snippets =
      [.argument (remark argument) ⟨argument, ⟨111, argument.utf8ByteSize + 2⟩⟩,
        .line ⟨line, ⟨argument.utf8ByteSize + 126, line.utf8ByteSize + 2⟩⟩] := by
  have hdefinitions : (remarking argument line).definitions = [.ofClass (remarked argument line)] :=
    List.mergeSort_singleton _
  rw [snippets, hdefinitions]
  rfl

/-- The error of a line is shown at the line. -/
theorem syntax_error_place_line :
    ∃ e, Statement.parseLine "x = = 1" = .error e ∧
      (remarking "1" "x = = 1").project = .error (.build (.malformed e)
        (some ((Scope.ofManifest (remarking "1" "x = = 1")).placeOf ⟨"x = = 1", ⟨127, 9⟩⟩))) := by
  obtain ⟨place, hproject⟩ : ∃ place, (remarking "1" "x = = 1").project =
      .error (.build (.malformed ⟨.statement, .unexpected "=", ⟨4, 1⟩⟩) place) :=
    exists_place (by decide +kernel)
  obtain ⟨before, x, after, hsnippets, -, hfault, hplace⟩ := syntax_error_place.2 _ _ hproject
  have hread : failure? (Expression.parse "1") = none := by decide +kernel
  have hx : x ∈ (remarking "1" "x = = 1").snippets := by
    rw [hsnippets]
    simp
  rw [snippets_remarking] at hx
  rcases List.mem_pair.1 hx with rfl | rfl
  · rw [Snippet.fault?, hread] at hfault
    cases hfault
  · refine ⟨_, failure?_eq_some_iff.1 hfault, ?_⟩
    rw [hproject, hplace]
    rfl

/-- An argument of an attribute that cannot be read is not where its error is shown. -/
theorem argument_misplaced :
    ¬∀ m : Manifest, m.validate = .ok () → ∀ e place,
      m.project = .error (.build (.malformed e) place) → ∀ before x after,
      m.snippets = before ++ x :: after → (∀ y ∈ before, y.fault? = none) → x.fault? = some e →
      ∀ q ∈ x.text?, place = some ((Scope.ofManifest m).placeOf q) := by
  intro h
  have hv : (remarking "1 +" "x = 1").validate = .ok () := by decide +kernel
  have hfault : failure? (Expression.parse "1 +") =
      some ⟨.expression, .operandAfter "+", ⟨2, 1⟩⟩ := by decide +kernel
  obtain ⟨place, hproject⟩ : ∃ place, (remarking "1 +" "x = 1").project =
      .error (.build (.malformed ⟨.expression, .operandAfter "+", ⟨2, 1⟩⟩) place) :=
    exists_place (by decide +kernel)
  have hplaced := h _ hv _ _ hproject [] _ _ (snippets_remarking "1 +" "x = 1")
    (fun y hy => by cases hy) hfault _ rfl
  have hshown := (reads_project _).blames _ _ hproject rfl
  rw [snippets_remarking, List.findSome?_cons, Snippet.report?, Snippet.fault?, hfault,
    hplaced] at hshown
  -- the attribute starts with 91 or 92, and its argument not before 111
  have hsame : ((Scope.ofManifest (remarking "1 +" "x = 1")).placeOf (remark "1 +").type).offset =
      ((Scope.ofManifest (remarking "1 +" "x = 1")).placeOf ⟨"1 +", ⟨111, 5⟩⟩).offset :=
    congrArg Span.offset (Option.some.inj (Prod.mk.inj (Option.some.inj hshown)).2)
  have hattribute := offset_placeOf (s := .ofManifest (remarking "1 +" "x = 1")) (remark "1 +").type
  have hargument := offset_placeOf (s := .ofManifest (remarking "1 +" "x = 1"))
    ⟨"1 +", ⟨111, 5⟩⟩
  rw [hsame] at hattribute
  simp only [remark] at hattribute hargument
  omega

end Manifest

end SharpSmith
