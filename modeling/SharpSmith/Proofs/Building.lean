import SharpSmith.Build.Project
import SharpSmith.Proofs.Calls
import SharpSmith.Proofs.Printing

/-!
# Built source files

A call that is made with identifiers for names and proper types keeps what is being built sound,
also when it fails. So whatever such calls build prints as a tidy source file.
-/

namespace SharpSmith.Fragment

/-- What was read as an expression is a fragment. -/
lemma isFragment_of_expression {text e} (h : Expression.parse text = .ok e) :
    IsFragment e.text := by
  obtain ⟨ts, htokens, hne, hb, he⟩ := tokenize_of_parse h
  exact ⟨ts, hne, spelling_of_mem_tokensFrom htokens, hb, he⟩

/-- Each of several expressions that were read is a fragment. -/
lemma isFragment_of_expressions {texts es} (h : Expression.parseAll texts = .ok es) :
    ∀ e ∈ es, IsFragment e.text := by
  induction texts generalizing es with
  | nil =>
    cases h
    exact nofun
  | cons text texts ih =>
    simp only [Expression.parseAll, bind_eq_ok_iff] at h
    obtain ⟨e, he, es', hes, h⟩ := h
    cases h
    exact List.forall_mem_cons.2 ⟨isFragment_of_expression he, ih hes⟩

/-- What was read as a statement is a fragment. -/
lemma isFragment_of_statement {text s} (h : Statement.parse text = .ok s) : IsFragment s.text := by
  obtain ⟨ts, used, htokens, hb, hs, hholds, rfl⟩ := Statement.parse_eq_ok_iff.1 h
  refine ⟨used, hs.ne_nil, fun t ht => ?_, balanced_of_holdsOnly hholds hb, rfl⟩
  exact spelling_of_mem_tokensFrom htokens t (mem_of_holdsOnly hholds t ht)

/-- What was read as a line of a body is a fragment. -/
lemma isFragment_of_line {text s} (h : Statement.parseLine text = .ok s) : IsFragment s.text := by
  unfold Statement.parseLine at h
  dsimp only at h
  split at h <;> exact isFragment_of_statement h

/-- One token is joined to its own text. -/
lemma joinTokens_single {t : Token} : joinTokens [t] = t.text := by
  obtain ⟨x, hx, rfl⟩ := List.map_eq_singleton_iff.1 (map_fst_roles : (roles [t]).map _ = _)
  rw [joinTokens, hx, joinRoles, joinAfter, String.append_empty]

/-- An identifier is a fragment of one token. -/
lemma isFragment_of_identifier {s : String} (h : IsIdentifier s.toList) : IsFragment s := by
  have hs : Spelling .identifier s.toList := by
    generalize s.toList = cs at h
    cases h with
    | bare hw hk =>
      cases hw with
      | mk hc hw =>
        have := Spelling.word hc hw
        rwa [wordKind, hk] at this
    | escaped hw =>
      cases hw with
      | mk hc hw => exact .escaped hc hw
  refine ⟨[⟨.identifier, s, 0, false⟩], nofun, ?_, ?_, ?_⟩
  · rintro t ht
    cases List.mem_singleton.1 ht
    exact ⟨hs, nofun⟩
  · exact .token (opens_of_kind nofun) (closes_of_kind nofun) .nil
  · rw [joinTokens_single]

/-- A fragment that has no tokens was put together from tokens that fuse. -/
lemma IsFragment.fuses {text} (h : IsFragment text) (hl : ¬Lexes text) :
    ∃ ts, Balanced ts ∧ text = joinTokens ts ∧ fuses (roles ts) = true := by
  obtain ⟨ts, -, hs, hb, rfl⟩ := h
  refine ⟨ts, hb, rfl, ?_⟩
  by_contra hf
  obtain ⟨us, hus, -⟩ := (hasTokens_joinTokens_iff hs).2 (by simpa using hf)
  exact hl ⟨us, hus⟩

end SharpSmith.Fragment

namespace SharpSmith

/-- The name under which a type is applied as an attribute is a name, unless it is that of an
array. -/
lemma Proper.attributeName {t : TypeRef} (h : Proper t) :
    Fragment.Named (Identifier.attributeName t.name) ∨
      Identifier.attributeName t.name = "[]" := by
  rcases h.name with hw | ⟨-, hn⟩
  · left
    unfold Identifier.attributeName
    dsimp only
    split
    case isFalse => exact Fragment.named_word hw
    case isTrue hends =>
      simp only [Bool.and_eq_true, List.isSuffixOf_iff_suffix, bne_iff_ne] at hends
      have hlength := hends.1.length_le
      refine Fragment.named_word ?_
      rw [String.toList_ofList]
      exact hw.take (by omega)
  · right
    rw [hn]
    decide

/-- A type all of whose parts are proper. -/
def TypeRef.AllProper (t : TypeRef) : Prop :=
  ∀ n ∈ t.nodes, Proper n

/-- A type all parts of which are proper is proper itself. -/
lemma TypeRef.AllProper.root {t : TypeRef} (h : t.AllProper) : Proper t :=
  h t (by rw [Manifest.nodes_eq]; exact .head _)

/-- A type all parts of which are proper is shown as a name. -/
lemma TypeRef.AllProper.named {t : TypeRef} (h : t.AllProper) : Fragment.Named t.display :=
  Fragment.named_display t h

end SharpSmith

namespace SharpSmith.Build

open Fragment

/-- What holds of a list and of one element more holds of both together. -/
lemma forall_mem_snoc {β : Type} {R : β → Prop} {xs : List β} {x} (h : ∀ y ∈ xs, R y) (hx : R x) :
    ∀ y ∈ xs ++ [x], R y :=
  List.forall_mem_append.2 ⟨h, List.forall_mem_singleton.2 hx⟩

/-- Attributes being collected are sound. -/
def AttributesDraft.Sound (d : AttributesDraft) : Prop :=
  ∀ a ∈ d.attributes, a.Sound

/-- A property that is being built has a name, a type and attributes that can be printed. -/
structure PropertyDraft.Sound (p : PropertyDraft) : Prop where
  name : IsIdentifier p.name.toList
  type : p.type.AllProper
  attributes : ∀ a ∈ p.attributes, a.Sound

/-- Properties being added are sound. -/
def PropertiesDraft.Sound (d : PropertiesDraft) : Prop :=
  ∀ p ∈ d.properties, p.Sound

/-- A parameter that is being built has a name and a type that can be printed. -/
structure ParameterDraft.Sound (p : ParameterDraft) : Prop where
  name : IsIdentifier p.name.toList
  type : p.type.AllProper

/-- All parts of a method that is being built can be printed. -/
structure MethodDraft.Sound (m : MethodDraft) : Prop where
  name : IsIdentifier m.name.toList
  returns : ∀ t ∈ m.returns, t.AllProper
  parameters : ∀ p ∈ m.parameters, p.Sound
  attributes : ∀ a ∈ m.attributes, a.Sound
  body : ∀ s ∈ m.body.getD [], IsFragment s.text

/-- All parts of a constructor that is being built can be printed. -/
structure ConstructorDraft.Sound (c : ConstructorDraft) : Prop where
  name : IsIdentifier c.name.toList
  parameters : ∀ p ∈ c.parameters, p.Sound
  attributes : ∀ a ∈ c.attributes, a.Sound
  body : ∀ s ∈ c.body, IsFragment s.text
  base : ∀ args, c.base = some (.explicit args) → ∀ e ∈ args, IsFragment e.text

/-- All parts of a declaration that is being built can be printed. -/
structure Draft.Sound {kind : DeclarationKind} (d : Draft kind) : Prop where
  name : IsIdentifier d.name.toList
  attributes : ∀ a ∈ d.attributes, a.Sound
  parameters : ∀ p ∈ d.parameters, p.Sound
  base : ∀ t ∈ d.base, t.AllProper
  interfaces : ∀ t ∈ d.interfaces, t.AllProper
  members : ∀ m ∈ d.members, m.Sound

/-- What is asked of a call on attributes. -/
def AttributeStep.Sound : AttributeStep → Prop
  | .add type _ | .addBare type => type.AllProper
  | .fail _ | .probe => True

/-- A sound call keeps the attributes that are being collected sound. -/
lemma AttributeStep.Sound.keeps {act : AttributeStep} (h : act.Sound) :
    Keeps AttributesDraft.Sound AttributeStep.run act := by
  intro d hd
  cases act with
  | add type args =>
    have ht : type.AllProper := h
    rw [AttributeStep.run]
    split
    case h_1 es hes =>
      exact forall_mem_snoc hd ⟨ht.root.attributeName, isFragment_of_expressions hes⟩
    case h_2 => exact hd
  | addBare type =>
    have ht : type.AllProper := h
    exact forall_mem_snoc hd ⟨ht.root.attributeName, nofun⟩
  | fail | probe => exact hd

/-- What sound calls collect is sound. -/
lemma AttributeStep.sound_collect {calls : List (Call AttributeStep)} {deps}
    (h : ∀ c ∈ calls, c.act.Sound) : (AttributeStep.collect calls deps).state.Sound :=
  Keeps.runAll (fun c hc => (h c hc).keeps) (nofun : AttributesDraft.Sound ⟨deps, []⟩)

/-- Adding a line keeps the statements of a body fragments. -/
lemma keeps_addLine {text} :
    Keeps (fun body => ∀ s ∈ body, IsFragment s.text) BodyStep.addLine text := by
  intro body hbody
  rw [BodyStep.addLine]
  split
  case h_1 s hs => exact forall_mem_snoc hbody (isFragment_of_line hs)
  case h_2 => exact hbody

/-- A call on a body keeps all its statements fragments. -/
lemma keeps_body {act} : Keeps (fun body => ∀ s ∈ body, IsFragment s.text) BodyStep.run act := by
  intro body hbody
  cases act with
  | line text => exact keeps_addLine body hbody
  | lines texts => exact Keeps.runAll (fun _ _ => keeps_addLine) hbody
  | fail | probe => exact hbody

/-- What is asked of a call on an open property. -/
def HandleStep.Sound : HandleStep → Prop
  | .attributes calls => ∀ c ∈ calls, c.act.Sound
  | .accessor _ | .modifier _ | .doc _ | .probe => True

/-- A sound call keeps an open property sound. -/
lemma HandleStep.Sound.keeps {act : HandleStep} (h : act.Sound) :
    Keeps (fun o => o.property.Sound) HandleStep.run act := by
  intro o ho
  cases act with
  | accessor a =>
    show (o.property.access a).Sound
    unfold PropertyDraft.access
    split <;> exact ⟨ho.name, ho.type, ho.attributes⟩
  | attributes calls =>
    refine Run.commit_state (P := fun o : OpenProperty => o.property.Sound) ho
      ⟨ho.name, ho.type, ?_⟩
    exact List.forall_mem_append.2 ⟨ho.attributes, AttributeStep.sound_collect h⟩
  | modifier | doc => exact ⟨ho.name, ho.type, ho.attributes⟩
  | probe => exact ho

/-- What is asked of a call that adds properties. -/
def PropertyStep.Sound : PropertyStep → Prop
  | .add name type calls | .addPrivate name type calls =>
    IsIdentifier name.toList ∧ type.AllProper ∧ ∀ c ∈ calls, c.act.Sound
  | .current calls => ∀ c ∈ calls, c.act.Sound
  | .fail _ | .probe => True

/-- A property with a sound name, type and calls can be added to others. -/
lemma PropertiesDraft.Sound.push {d : PropertiesDraft} {name type visibility}
    {calls : List (Call HandleStep)} (hd : d.Sound) (hn : IsIdentifier name.toList)
    (ht : type.AllProper) (h : ∀ c ∈ calls, c.act.Sound) :
    (d.push name type visibility calls).state.Sound := by
  have hnew : (PropertyDraft.new name type visibility).Sound := ⟨hn, ht, nofun⟩
  exact forall_mem_snoc hd (Keeps.runAll (fun c hc => (h c hc).keeps) hnew)

/-- A sound call keeps properties sound. -/
lemma PropertyStep.Sound.keeps {act : PropertyStep} (h : act.Sound) :
    Keeps PropertiesDraft.Sound PropertyStep.run act := by
  intro d hd
  cases act with
  | add name type calls => exact hd.push h.1 h.2.1 h.2.2
  | addPrivate name type calls => exact hd.push h.1 h.2.1 h.2.2
  | current calls =>
    rw [PropertyStep.run]
    split
    case h_1 p hp =>
      -- the last property is taken out, worked on, and put back
      have hlast : p.Sound := hd p (List.mem_of_getLast? hp)
      refine forall_mem_snoc (fun q hq => hd q (List.dropLast_subset _ hq)) ?_
      exact Keeps.runAll (fun c hc => (h c hc).keeps) hlast
    case h_2 => exact hd
  | fail | probe => exact hd

/-- What is asked of a call on a method. -/
def MethodStep.Sound : MethodStep → Prop
  | .returns type => type.AllProper
  | .parameter name type => ParameterDraft.Sound ⟨name, type⟩
  | .attributes calls => ∀ c ∈ calls, c.act.Sound
  | .body _ | .bodyWith _ | .modifier _ | .doc _ | .fail _ | .probe => True

/-- A sound call keeps a method sound. -/
lemma MethodStep.Sound.keeps {act : MethodStep} (h : act.Sound) :
    Keeps MethodDraft.Sound MethodStep.run act := by
  intro m hm
  cases act with
  | returns type =>
    refine { hm with returns := ?_ }
    rintro t ⟨⟩
    exact h
  | parameter name type =>
    exact { hm with parameters := forall_mem_snoc hm.parameters h }
  | body lines =>
    exact { hm with body := Keeps.runAll (fun _ _ => keeps_addLine) hm.body }
  | bodyWith calls =>
    exact { hm with body := Keeps.runAll (fun _ _ => keeps_body) hm.body }
  | attributes calls =>
    refine Run.commit_state hm { hm with attributes := ?_ }
    exact List.forall_mem_append.2 ⟨hm.attributes, AttributeStep.sound_collect h⟩
  | modifier | doc => exact { hm with }
  | fail | probe => exact hm

/-- What is asked of a call on a constructor. -/
def ConstructorStep.Sound : ConstructorStep → Prop
  | .parameter name type => ParameterDraft.Sound ⟨name, type⟩
  | .attributes calls => ∀ c ∈ calls, c.act.Sound
  | .mapBase | .mapBaseWith _ | .body _ | .bodyWith _ | .modifier _ | .doc _ | .fail _ |
    .probe => True

/-- A sound call keeps a constructor sound. -/
lemma ConstructorStep.Sound.keeps {act : ConstructorStep} (h : act.Sound) :
    Keeps ConstructorDraft.Sound ConstructorStep.run act := by
  intro c hc
  cases act with
  | parameter name type =>
    exact { hc with parameters := forall_mem_snoc hc.parameters h }
  | mapBase => exact { hc with base := nofun }
  | mapBaseWith args =>
    rw [ConstructorStep.run]
    split
    case h_1 es hes =>
      refine { hc with base := ?_ }
      rintro _ ⟨⟩
      exact isFragment_of_expressions hes
    case h_2 => exact hc
  | body lines =>
    exact { hc with body := Keeps.runAll (fun _ _ => keeps_addLine) hc.body }
  | bodyWith calls =>
    exact { hc with body := Keeps.runAll (fun _ _ => keeps_body) hc.body }
  | attributes calls =>
    refine Run.commit_state hc { hc with attributes := ?_ }
    exact List.forall_mem_append.2 ⟨hc.attributes, AttributeStep.sound_collect h⟩
  | modifier | doc => exact { hc with }
  | fail | probe => exact hc

/-- A sound parameter is built as a sound one. -/
lemma ParameterDraft.Sound.build {p : ParameterDraft} (h : p.Sound) : p.build.Sound :=
  ⟨h.type.named, named_identifier h.name⟩

/-- Sound parameters are built as sound ones. -/
lemma ParameterDraft.sound_builds {ps : List ParameterDraft} (h : ∀ p ∈ ps, p.Sound) :
    ∀ p ∈ ps.map ParameterDraft.build, p.Sound := by
  intro q hq
  obtain ⟨p, hp, rfl⟩ := List.mem_map.1 hq
  exact (h p hp).build

/-- A sound property is built as a sound one. -/
lemma PropertyDraft.Sound.build {p : PropertyDraft} (h : p.Sound) : p.build.Sound :=
  ⟨h.attributes, h.type.named, named_identifier h.name⟩

/-- A sound method is built as a sound one. -/
lemma MethodDraft.Sound.build {m : MethodDraft} (h : m.Sound) : m.build.Sound where
  attributes := h.attributes
  name := named_identifier h.name
  parameters := ParameterDraft.sound_builds h.parameters
  returns := by
    have hreturns := h.returns
    show Named ((m.returns.map TypeRef.display).getD "void")
    cases hr : m.returns with
    | none => exact Code.named_literal (by decide) (by decide)
    | some t => exact (hreturns t hr).named
  body := by
    have hbody := h.body
    unfold MethodDraft.build
    dsimp only
    split
    case h_1 body hb =>
      rwa [hb] at hbody
    case h_2 =>
      split <;> exact nofun

/-- A sound constructor is built as a sound one. -/
lemma ConstructorDraft.Sound.build {c : ConstructorDraft} (h : c.Sound) : c.build.Sound where
  attributes := h.attributes
  name := named_identifier h.name
  parameters := ParameterDraft.sound_builds h.parameters
  body := h.body
  baseArgs := by
    have hbase := h.base
    show ∀ e ∈ c.baseArgs.getD [], IsFragment e.text
    unfold ConstructorDraft.baseArgs
    cases hb : c.base with
    | none => exact nofun
    | some base =>
      cases base with
      | explicit args => exact hbase args hb
      | forward =>
        -- what is passed on are the names of the parameters
        intro e he
        obtain ⟨p, hp, rfl⟩ := List.mem_map.1 he
        exact isFragment_of_identifier (h.parameters p hp).name

variable {kind : DeclarationKind}

/-- What is asked of a call on a declaration. -/
def DeclarationStep.Sound : DeclarationStep kind → Prop
  | .extend type | .implement type _ => type.AllProper
  | .attributes calls => ∀ c ∈ calls, c.act.Sound
  | .properties calls => ∀ c ∈ calls, c.act.Sound
  | .method name calls => IsIdentifier name.toList ∧ ∀ c ∈ calls, c.act.Sound
  | .constructor calls => ∀ c ∈ calls, c.act.Sound
  | .parameter name type => ParameterDraft.Sound ⟨name, type⟩
  | .doc _ | .modifier _ | .defaultConstructor | .fail _ => True

/-- A declaration stays sound when it gets an interface. -/
lemma Draft.Sound.addInterface {d : Draft kind} {type} (hd : d.Sound) (ht : type.AllProper) :
    (d.addInterface type).state.Sound := by
  unfold Draft.addInterface
  split
  case isTrue => exact { hd with interfaces := forall_mem_snoc hd.interfaces ht }
  case isFalse => exact hd

/-- A declaration stays sound when it gets a base class. -/
lemma Draft.Sound.setBase {d : Draft kind} {type} (hd : d.Sound) (ht : type.AllProper) :
    (d.setBase type).state.Sound := by
  unfold Draft.setBase
  split
  case isTrue => exact hd
  case isFalse =>
    split
    case h_1 => exact hd
    case h_2 =>
      refine { hd with base := ?_ }
      rintro t ⟨⟩
      exact ht

/-- A declaration stays sound when it gets properties by sound calls. -/
lemma Draft.Sound.addProperties {d : Draft kind} {calls : List (Call PropertyStep)} (hd : d.Sound)
    (h : ∀ c ∈ calls, c.act.Sound) : (d.addProperties calls).state.Sound := by
  refine Run.commit_state hd { hd with members := ?_ }
  refine List.forall_mem_append.2 ⟨hd.members, fun m hm => ?_⟩
  simp only [PropertiesDraft.build, List.mem_map] at hm
  obtain ⟨_, ⟨p, hp, rfl⟩, rfl⟩ := hm
  have hall := Keeps.runAll (fun c hc => (h c hc).keeps)
    (nofun : PropertiesDraft.Sound
      ⟨d.dependencies, if d.inInterface then none else some .publicAccess, []⟩)
  exact (hall p hp).build

/-- A declaration stays sound when it gets a method by sound calls. -/
lemma Draft.Sound.addMethod {d : Draft kind} {name} {calls : List (Call MethodStep)} (hd : d.Sound)
    (hn : IsIdentifier name.toList) (h : ∀ c ∈ calls, c.act.Sound) :
    (d.addMethod name calls).state.Sound := by
  have hnew : (MethodDraft.new d.dependencies name d.inInterface).Sound :=
    ⟨hn, nofun, nofun, nofun, nofun⟩
  refine Run.commit_state hd { hd with members := forall_mem_snoc hd.members ?_ }
  exact (Keeps.runAll (fun c hc => (h c hc).keeps) hnew).build

/-- A declaration stays sound when it gets a constructor by sound calls. -/
lemma Draft.Sound.addConstructor {d : Draft kind} {calls : List (Call ConstructorStep)}
    (hd : d.Sound) (h : ∀ c ∈ calls, c.act.Sound) : (d.addConstructor calls).state.Sound := by
  have hnew : (ConstructorDraft.new d.dependencies d.name).Sound :=
    ⟨hd.name, nofun, nofun, nofun, nofun⟩
  have hbuilt := (Keeps.runAll (fun c hc => (h c hc).keeps) hnew).build
  unfold Draft.addConstructor
  dsimp only
  split
  case h_1 => exact hd
  case h_2 =>
    split
    case isTrue => exact hd
    case isFalse => exact { hd with members := forall_mem_snoc hd.members hbuilt }

/-- A sound call keeps a declaration sound. -/
lemma DeclarationStep.Sound.keeps {act : DeclarationStep kind} (h : act.Sound) :
    Keeps Draft.Sound DeclarationStep.run act := by
  intro d hd
  cases act with
  | extend type =>
    rw [DeclarationStep.run]
    split
    case isTrue => exact hd.addInterface h
    case isFalse => exact hd.setBase h
  | implement type allowed => exact hd.addInterface h
  | attributes calls =>
    refine Run.commit_state hd { hd with attributes := ?_ }
    exact List.forall_mem_append.2 ⟨hd.attributes, AttributeStep.sound_collect h⟩
  | properties calls => exact hd.addProperties h
  | method name calls => exact hd.addMethod h.1 h.2
  | constructor calls => exact hd.addConstructor h
  | defaultConstructor => exact hd.addConstructor nofun
  | parameter name type => exact { hd with parameters := forall_mem_snoc hd.parameters h }
  | doc | modifier => exact { hd with }
  | fail => exact hd

/-- A declaration whose name is an identifier starts out sound. -/
lemma Draft.sound_new {name space} (h : IsIdentifier name.toList) :
    (Draft.new kind name space).Sound :=
  ⟨h, nofun, nofun, nofun, nofun, nofun⟩

/-- A sound declaration is built as a sound one. -/
lemma Draft.Sound.build {d : Draft kind} (h : d.Sound) : d.build.Sound where
  attributes := h.attributes
  name := named_identifier h.name
  members := h.members
  region := nofun
  parameters := by
    unfold Draft.build
    dsimp only
    split
    case isTrue => exact ParameterDraft.sound_builds h.parameters
    case isFalse => exact nofun
  bases := by
    intro b hb
    obtain ⟨t, ht, rfl⟩ := List.mem_map.1 hb
    rcases List.mem_append.1 ht with ht | ht
    · exact (h.base t (Option.mem_toList.1 ht)).named
    · exact (h.interfaces t ht).named

/-- What is built of sound declarations is sound; the names of its regions are identifiers. -/
lemma FileDraft.sound_built {f : FileDraft} (h : ∀ d ∈ f.declarations, d.draft.Sound) :
    ∀ d ∈ f.built, d.Sound := by
  intro b hb
  obtain ⟨d, hd, rfl⟩ := List.mem_map.1 hb
  have hbuild := (h d hd).build
  dsimp only
  split
  case isTrue =>
    refine { hbuild with region := ?_ }
    rintro name ⟨⟩ c hc rfl
    exact absurd ((h d hd).name.isBlank '\n' hc) (by decide)
  case isFalse => exact hbuild

end SharpSmith.Build
