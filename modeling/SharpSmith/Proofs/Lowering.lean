import SharpSmith.Proofs.Members

/-!
# What a manifest builds

The source file of a manifest holds one declaration for each of its definitions, in the order of
their names in the document, and each declaration holds what its definition asks for: nothing is
lost, doubled or moved.
-/

namespace SharpSmith

open Manifest

namespace Definition

/-- The documentation of a declaration. -/
def doc : Definition → Option String
  | .ofClass d => d.doc
  | .ofInterface d => d.doc
  | .ofRecord d => d.doc

/-- The attributes of a declaration. -/
def attributes : Definition → List AttributeEntry
  | .ofClass d => d.attributes
  | .ofInterface d => d.attributes
  | .ofRecord d => d.attributes

/-- The modifiers that a declaration is asked to have. -/
def modifiers : Definition → List Quoted
  | .ofClass d => d.modifiers
  | .ofInterface d => d.modifiers
  | .ofRecord d => d.modifiers

/-- The types that a declaration extends, then those that it implements. -/
def bases : Definition → List Quoted
  | .ofClass d => d.base.toList ++ d.interfaces
  | .ofInterface d => d.bases
  | .ofRecord d => d.base.toList ++ d.interfaces

/-- The constructors of a declaration, which only a class has. -/
def constructors : Definition → List ConstructorEntry
  | .ofClass d => d.constructors
  | .ofInterface _ | .ofRecord _ => []

/-- The primary parameters of a declaration, which only a record has. -/
def parameters : Definition → Option (List ParameterEntry)
  | .ofRecord d => some d.parameters
  | .ofClass _ | .ofInterface _ => none

/-- What a declaration is built of: it is public unless it asks for another visibility, and the
members are the properties, then the constructors, then the methods. -/
structure Gives (s : Scope) (d : Definition) (x : Code.Declaration) : Prop where
  kind : x.kind = d.kind
  name : x.name = d.name.value
  doc : x.doc = d.doc
  attributes : List.Forall₂ (AttributeEntry.Gives s) d.attributes x.attributes
  modifiers : Modifiers.Written (some .publicAccess) d.modifiers x.modifiers
  bases : List.Forall₂ s.Shows d.bases x.bases
  parameters : Option.Rel (List.Forall₂ (ParameterEntry.Gives s)) d.parameters x.parameters
  members : ∃ ps ks ms,
    x.members = ps.map .property ++ ks.map .constructor ++ ms.map .method ∧
    List.Forall₂ (PropertyEntry.Gives s d.kind) d.properties ps ∧
    List.Forall₂ (ConstructorEntry.Gives s d.name.value) d.constructors ks ∧
    List.Forall₂ (MethodEntry.Gives s d.kind) d.methods ms

end Definition

namespace Build

/-- What a part of a plan puts into a declaration. -/
structure Parts where
  doc : Option String := none
  attributes : List Code.Attribute := []
  modifiers : List Modifier := []
  parameters : List ParameterDraft := []
  base : Option TypeRef := none
  interfaces : List TypeRef := []
  members : List Code.Member := []

/-- Parts that are put into a declaration after others. -/
def Parts.append (p q : Parts) : Parts where
  doc := q.doc.or p.doc
  attributes := p.attributes ++ q.attributes
  modifiers := p.modifiers ++ q.modifiers
  parameters := p.parameters ++ q.parameters
  base := q.base.or p.base
  interfaces := p.interfaces ++ q.interfaces
  members := p.members ++ q.members

namespace Draft

variable {kind : DeclarationKind}

/-- A declaration with more parts; what it needs and the signatures of its constructors may be
others. -/
def Grown (p : Parts) (d d' : Draft kind) : Prop :=
  ∃ needs signatures, d' = {
    name := d.name
    dependencies := needs
    doc := p.doc.or d.doc
    attributes := d.attributes ++ p.attributes
    modifiers := d.modifiers.insertAll p.modifiers
    parameters := d.parameters ++ p.parameters
    base := p.base.or d.base
    interfaces := d.interfaces ++ p.interfaces
    members := d.members ++ p.members
    signatures := signatures }

/-- A declaration has grown by nothing. -/
lemma Grown.refl (d : Draft kind) : Grown {} d d :=
  ⟨d.dependencies, d.signatures, by simp⟩

/-- A declaration that grows twice grows by the parts of both. -/
lemma Grown.trans {p q : Parts} {d₁ d₂ d₃ : Draft kind} (h : Grown p d₁ d₂) (h' : Grown q d₂ d₃) :
    Grown (p.append q) d₁ d₃ := by
  obtain ⟨_, _, rfl⟩ := h
  obtain ⟨needs, signatures, rfl⟩ := h'
  exact ⟨needs, signatures, by simp [Parts.append, Option.or_assoc, Modifiers.insertAll_append]⟩

/-- A declaration that grows keeps its name. -/
lemma Grown.name {p : Parts} {d d' : Draft kind} (h : Grown p d d') : d'.name = d.name := by
  obtain ⟨_, _, rfl⟩ := h
  rfl

/-- A declaration that starts with nothing is in the end built of its parts. -/
lemma Grown.build {p : Parts} {name space} {d : Draft kind} (h : Grown p (.new kind name space) d) :
    d.build = {
      kind := kind
      name := name
      doc := p.doc
      attributes := p.attributes
      modifiers := ((Modifiers.ofVisibility (some .publicAccess)).insertAll p.modifiers).toList
      parameters :=
        if kind = .recordDecl then some (p.parameters.map ParameterDraft.build) else none
      bases := (p.base.toList ++ p.interfaces).map TypeRef.display
      members := p.members
      region := none } := by
  obtain ⟨_, _, rfl⟩ := h
  simp [Draft.build, Draft.bases, Draft.new]

/-- A declaration that gets members has grown by them. -/
lemma grown_members {d d' : Draft kind} {needs ms signatures}
    (h : d' = { d with
      dependencies := needs
      members := d.members ++ ms
      signatures := signatures }) : Grown { members := ms } d d' :=
  ⟨needs, signatures, by simp [h]⟩

/-- A declaration that gets attributes has grown by them. -/
lemma grown_attributes {d d' : Draft kind} {needs as}
    (h : d' = { d with dependencies := needs, attributes := d.attributes ++ as }) :
    Grown { attributes := as } d d' :=
  ⟨needs, d.signatures, by simp [h]⟩

/-- A declaration that is given an interface has grown by it. -/
lemma grown_addInterface {d : Draft kind} {type} (hok : (d.addInterface type).result = .ok ()) :
    Grown { interfaces := [type] } d (d.addInterface type).state := by
  obtain ⟨e, hf⟩ | ⟨-, hf⟩ := d.addInterface_cases type
  · rw [hf] at hok
    cases hok
  · rw [hf]
    exact ⟨d.dependencies.add type, d.signatures, by simp [Run.done]⟩

/-- A declaration that is given a base class has grown by it. -/
lemma grown_setBase {d : Draft kind} {type} (hok : (d.setBase type).result = .ok ()) :
    Grown { base := some type } d (d.setBase type).state := by
  obtain ⟨e, hf⟩ | ⟨-, -, hf⟩ := d.setBase_cases type
  · rw [hf] at hok
    cases hok
  · rw [hf]
    exact ⟨d.dependencies.add type, d.signatures, by simp [Run.done]⟩

end Draft

end Build

namespace Manifest

open Build

variable {s : Scope} {kind : DeclarationKind}

/-- A plan succeeds just if its first call does and then the rest of it. -/
lemma Plan.run_cons_iff {x} {plan : Plan kind} {d d'} :
    Plan.run (x :: plan) d = .ok d' ↔
      ∃ c, x = .ok c ∧ (c.act.run d).result = .ok () ∧ plan.run (c.act.run d).state = .ok d' := by
  cases x with
  | error e => exact ⟨nofun, fun ⟨_, h, _⟩ => by cases h⟩
  | ok c =>
    rw [Plan.run]
    constructor
    · intro h
      split at h
      case h_2 => cases h
      case h_1 hr =>
        obtain ⟨hsame, hok⟩ := Call.run_of_ok hr
        rw [hsame] at h
        exact ⟨c, rfl, hok, h⟩
    · rintro ⟨_, ⟨⟩, hok, h⟩
      have hsame : c.run DeclarationStep.run d = c.act.run d := by
        rw [Call.run, hok]
      rw [hsame, hok]
      exact h

/-- A plan that succeeds can be cut anywhere. -/
lemma Plan.run_append {plan plan' : Plan kind} {d d'} (h : Plan.run (plan ++ plan') d = .ok d') :
    ∃ t, plan.run d = .ok t ∧ plan'.run t = .ok d' := by
  induction plan generalizing d with
  | nil => exact ⟨d, rfl, h⟩
  | cons x plan ih =>
    obtain ⟨c, hx, hok, h⟩ := Plan.run_cons_iff.1 h
    obtain ⟨t, ht, h'⟩ := ih h
    exact ⟨t, Plan.run_cons_iff.2 ⟨c, hx, hok, ht⟩, h'⟩

/-- A plan of one call that succeeds ends where the call does. -/
lemma Plan.run_single {x} {d d' : Draft kind} (h : Plan.run [x] d = .ok d') :
    ∃ c, x = .ok c ∧ (c.act.run d).result = .ok () ∧ d' = (c.act.run d).state := by
  obtain ⟨c, hx, hok, h⟩ := Plan.run_cons_iff.1 h
  cases h
  exact ⟨c, hx, hok, rfl⟩

/-- Parts of one sort, each of which adds an item to the declaration. -/
lemma Plan.collect {β γ : Type} {R : β → γ → Prop} {G : List γ → Draft kind → Draft kind → Prop}
    {f : β → Except ManifestError (Call (DeclarationStep kind))} {xs d d'}
    (h : Plan.run (xs.map f) d = .ok d') (refl : ∀ d, G [] d d)
    (grow : ∀ x c d, f x = .ok c → (c.act.run d).result = .ok () →
      ∃ y, R x y ∧ ∀ ys d', G ys (c.act.run d).state d' → G (y :: ys) d d') :
    ∃ ys, List.Forall₂ R xs ys ∧ G ys d d' := by
  induction xs generalizing d with
  | nil =>
    cases h
    exact ⟨[], .nil, refl _⟩
  | cons x xs ih =>
    obtain ⟨c, hc, hok, h⟩ := Plan.run_cons_iff.1 h
    obtain ⟨y, hy, hgrow⟩ := grow x c d hc hok
    obtain ⟨ys, hys, hG⟩ := ih h
    exact ⟨y :: ys, .cons hy hys, hgrow ys d' hG⟩

/-- A declaration that is asked for documentation has grown by it. -/
lemma docPlan_grown {doc : Option String} {d d' : Draft kind}
    (h : Plan.run (doc.toList.map fun text => .ok (.plain (.doc text))) d = .ok d') :
    Draft.Grown { doc := doc } d d' := by
  cases doc with
  | none =>
    cases h
    exact .refl d
  | some text =>
    obtain ⟨c, hc, -, rfl⟩ := Plan.run_single h
    cases hc
    exact ⟨d.dependencies, d.signatures,
      by simp [Call.plain, DeclarationStep.run, Run.done]⟩

/-- A declaration that is asked for modifiers has grown by those that the words mean. -/
lemma modifiersPlan_gives {qs : List Quoted} {d d' : Draft kind}
    (h : Plan.run (qs.map fun q => (s.modifier q).map fun x => .plain (.modifier x)) d = .ok d') :
    ∃ xs, List.Forall₂ (fun q x => Modifier.ofKeyword? q.value = some x) qs xs ∧
      Draft.Grown { modifiers := xs } d d' := by
  apply Plan.collect (G := fun xs => Draft.Grown { modifiers := xs }) h Draft.Grown.refl
  intro q c d hc _
  obtain ⟨x, hx, rfl⟩ := map_eq_ok_iff.1 hc
  have hone : Draft.Grown { modifiers := [x] } d { d with modifiers := d.modifiers.insert x } :=
    ⟨d.dependencies, d.signatures, by simp⟩
  exact ⟨x, modifier_means hx, fun _ d' h => hone.trans h⟩

/-- What stands above a declaration and before its name. -/
lemma headPlan_gives {doc modifiers} {attributes : List AttributeEntry} {d d' : Draft kind}
    (h : Plan.run (s.headPlan doc modifiers attributes) d = .ok d') :
    ∃ as xs, List.Forall₂ (AttributeEntry.Gives s) attributes as ∧
      List.Forall₂ (fun q x => Modifier.ofKeyword? q.value = some x) modifiers xs ∧
      Draft.Grown { doc := doc, attributes := as, modifiers := xs } d d' := by
  obtain ⟨d₂, h, hlast⟩ := Plan.run_append h
  obtain ⟨d₁, hfirst, hmodifiers⟩ := Plan.run_append h
  have hdoc := docPlan_grown hfirst
  obtain ⟨xs, hxs, hwords⟩ := modifiersPlan_gives hmodifiers
  obtain ⟨c, hc, hok, rfl⟩ := Plan.run_single hlast
  obtain ⟨calls, hcalls, rfl⟩ := map_eq_ok_iff.1 hc
  obtain ⟨added, hadded, hcommit⟩ := attributes_give hcalls hok
  have hattributes := Draft.grown_attributes (d := d₂) hcommit
  have hparts : (Parts.append { doc := doc } { modifiers := xs }).append
      { attributes := added.attributes } =
        { doc := doc, attributes := added.attributes, modifiers := xs } := by
    simp [Parts.append]
  exact ⟨added.attributes, xs, hadded, hxs, hparts ▸ (hdoc.trans hwords).trans hattributes⟩

/-- The base class of a class or record, if one is given. -/
lemma extendPlan_gives {base : Option Quoted} {d d' : Draft kind}
    (hact : ∀ t d, (DeclarationStep.extend t).run d = (d : Draft kind).setBase t)
    (h : Plan.run (base.toList.map s.extendCall) d = .ok d') :
    ∃ t : Option TypeRef, s.Means base.toList t.toList ∧ Draft.Grown { base := t } d d' := by
  cases base with
  | none =>
    cases h
    exact ⟨none, .nil, .refl d⟩
  | some q =>
    obtain ⟨c, hc, hok, rfl⟩ := Plan.run_single h
    obtain ⟨t, ht, rfl⟩ := map_eq_ok_iff.1 hc
    change ((DeclarationStep.extend t).run d).result = .ok () at hok
    change ∃ t', _ ∧ Draft.Grown _ d ((DeclarationStep.extend t).run d).state
    rw [hact] at hok ⊢
    exact ⟨some t, .single ht, Draft.grown_setBase hok⟩

/-- The interfaces that an interface extends, or that a class or record implements. -/
lemma interfacesPlan_gives {qs : List Quoted} {act : TypeRef → DeclarationStep kind}
    {d d' : Draft kind} (hact : ∀ t d, (act t).run d = d.addInterface t)
    (h : Plan.run (qs.map fun q => (s.resolve q).map fun t => s.call q (act t)) d = .ok d') :
    ∃ ts, s.Means qs ts ∧ Draft.Grown { interfaces := ts } d d' := by
  apply Plan.collect (G := fun ts => Draft.Grown { interfaces := ts }) h Draft.Grown.refl
  intro q c d hc hok
  obtain ⟨t, ht, rfl⟩ := map_eq_ok_iff.1 hc
  change ((act t).run d).result = .ok () at hok
  have hone : Draft.Grown { interfaces := [t] } d ((act t).run d).state := by
    rw [hact] at hok ⊢
    exact Draft.grown_addInterface hok
  exact ⟨t, ht, fun ts d' h => hone.trans h⟩

/-- The primary parameters of a record. -/
lemma parametersPlan_gives {ds : List ParameterEntry} {d d' : Draft .recordDecl}
    (h : Plan.run (ds.map fun p =>
      (s.resolve p.type).map fun type => .plain (.parameter p.name.value type)) d = .ok d') :
    ∃ ps, List.Forall₂ (fun d p => ParameterEntry.Gives s d p.build) ds ps ∧
      Draft.Grown { parameters := ps } d d' := by
  apply Plan.collect (G := fun ps => Draft.Grown { parameters := ps }) h Draft.Grown.refl
  intro p c d hc _
  obtain ⟨t, ht, rfl⟩ := map_eq_ok_iff.1 hc
  have hone : Draft.Grown { parameters := [⟨p.name.value, t⟩] } d
      (d.addParameter p.name.value t) :=
    ⟨d.dependencies.add t, d.signatures, by simp [Draft.addParameter]⟩
  exact ⟨⟨p.name.value, t⟩, ⟨rfl, t, ht, rfl⟩, fun ps d' h => hone.trans h⟩

/-- The properties of a declaration. -/
lemma propertiesPlan_gives {ds : List PropertyEntry} {d d' : Draft kind}
    (h : Plan.run [s.propertiesCall (decide (kind = .interfaceDecl)) ds] d = .ok d') :
    ∃ ps, List.Forall₂ (PropertyEntry.Gives s kind) ds ps ∧
      Draft.Grown { members := ps.map .property } d d' := by
  obtain ⟨c, hc, hok, rfl⟩ := Plan.run_single h
  obtain ⟨calls, hcalls, rfl⟩ := map_eq_ok_iff.1 hc
  obtain ⟨hstate, hrun⟩ := Run.commit_of_ok hok
  obtain ⟨ps, hps, hbuilt⟩ := properties_give (by cases kind <;> rfl) hcalls hrun
  have hgrown := Draft.grown_members (d := d) hstate
  rw [PropertiesDraft.build, hbuilt] at hgrown
  exact ⟨ps.map PropertyDraft.build, List.forall₂_map_right_iff.2 hps, hgrown⟩

/-- The constructors of a class. -/
lemma constructorsPlan_gives {owner : Quoted} {ds : List ConstructorEntry} {d d' : Draft .classDecl}
    (h : Plan.run (ds.map (s.constructorCall owner)) d = .ok d') (hname : d.name = owner.value) :
    ∃ ks, List.Forall₂ (ConstructorEntry.Gives s owner.value) ds ks ∧
      Draft.Grown { members := ks.map .constructor } d d' := by
  -- a constructor goes by the name of its class, which has to stay the same
  induction ds generalizing d with
  | nil =>
    cases h
    exact ⟨[], .nil, .refl _⟩
  | cons e ds ih =>
    obtain ⟨c, hc, hok, h⟩ := Plan.run_cons_iff.1 h
    simp only [Scope.constructorCall, bind_eq_ok_iff] at hc
    obtain ⟨parameters, hparameters, access, haccess, attributes, hattributes, base, hbase, hc⟩ :=
      hc
    cases hc
    obtain ⟨log, f, hf⟩ | ⟨k, hrun, rfl, log, hf⟩ := d.addConstructor_cases _
    · have hfails := congrArg Run.result hf
      cases hfails.symm.trans hok
    · have hgrown := Draft.grown_members (d := d) (congrArg Run.state hf)
      obtain ⟨ks, hks, hgrown'⟩ := ih h (hgrown.name.trans hname)
      have hk := constructor_gives hparameters hattributes hbase haccess rfl rfl hrun
      exact ⟨_ :: ks, .cons { hk with name := hk.name.trans hname } hks, hgrown.trans hgrown'⟩

/-- The methods of a declaration. -/
lemma methodsPlan_gives {ds : List MethodEntry} {d d' : Draft kind}
    (h : Plan.run (ds.map s.methodCall) d = .ok d') :
    ∃ ms, List.Forall₂ (MethodEntry.Gives s kind) ds ms ∧
      Draft.Grown { members := ms.map .method } d d' := by
  apply Plan.collect (G := fun ms => Draft.Grown { members := ms.map .method }) h Draft.Grown.refl
  intro e c d hc hok
  simp only [Scope.methodCall, bind_eq_ok_iff] at hc
  obtain ⟨returns, hreturns, parameters, hparameters, modifiers, hmodifiers, attributes,
    hattributes, hc⟩ := hc
  cases hc
  obtain ⟨hstate, hrun⟩ := Run.commit_of_ok hok
  have hgrown := Draft.grown_members (d := d) hstate
  refine ⟨_, method_gives hreturns hparameters hmodifiers hattributes rfl rfl hrun, ?_⟩
  exact fun ms d' h => hgrown.trans h

/-- A declaration starts out public. -/
lemma modifiers_written {qs : List Quoted} {xs}
    (h : List.Forall₂ (fun q x => Modifier.ofKeyword? q.value = some x) qs xs) :
    Modifiers.Written (some .publicAccess) qs
      ((Modifiers.ofVisibility (some .publicAccess)).insertAll xs).toList := by
  have hstart : ∀ m ∈ some Modifier.publicAccess, m.isVisibility = true := by decide
  exact ⟨xs, h, (Modifiers.AskedFor.ofVisibility _).insertAll hstart xs⟩

/-- Texts show the types that they mean. -/
lemma shows_of_means {qs : List Quoted} {ts} (h : s.Means qs ts) :
    List.Forall₂ s.Shows qs (ts.map TypeRef.display) :=
  List.forall₂_map_right_iff.2 (h.imp fun _ t ht => ⟨t, ht, rfl⟩)

/-- A class that is built by its plan is what its definition gives. -/
lemma class_gives {d : ClassEntry} {space} {x : Draft .classDecl}
    (h : (s.classPlan d).run (.new _ d.name.value space) = .ok x) :
    Definition.Gives s (.ofClass d) x.build := by
  obtain ⟨x₅, h, hmethods⟩ := Plan.run_append h
  obtain ⟨x₄, h, hconstructors⟩ := Plan.run_append h
  obtain ⟨x₃, h, hproperties⟩ := Plan.run_append h
  obtain ⟨x₂, h, himplement⟩ := Plan.run_append h
  obtain ⟨x₁, hhead, hextend⟩ := Plan.run_append h
  obtain ⟨as, xs, has, hxs, hg₁⟩ := headPlan_gives hhead
  obtain ⟨base, hbase, hg₂⟩ := extendPlan_gives (fun _ _ => rfl) hextend
  obtain ⟨ts, hts, hg₃⟩ := interfacesPlan_gives (fun _ _ => rfl) himplement
  obtain ⟨ps, hps, hg₄⟩ := propertiesPlan_gives hproperties
  have hgrown := ((hg₁.trans hg₂).trans hg₃).trans hg₄
  obtain ⟨ks, hks, hg₅⟩ := constructorsPlan_gives hconstructors hgrown.name
  obtain ⟨ms, hms, hg₆⟩ := methodsPlan_gives hmethods
  have hgrown : Draft.Grown ⟨d.doc, as, xs, [], base, ts,
      ps.map .property ++ ks.map .constructor ++ ms.map .method⟩ (.new _ d.name.value space) x := by
    simpa [Parts.append] using (hgrown.trans hg₅).trans hg₆
  rw [hgrown.build]
  exact ⟨rfl, rfl, rfl, has, modifiers_written hxs, shows_of_means (hbase.append hts), .none,
    ps, ks, ms, rfl, hps, hks, hms⟩

/-- An interface that is built by its plan is what its definition gives. -/
lemma interface_gives {d : InterfaceEntry} {space} {x : Draft .interfaceDecl}
    (h : (s.interfacePlan d).run (.new _ d.name.value space) = .ok x) :
    Definition.Gives s (.ofInterface d) x.build := by
  obtain ⟨x₃, h, hmethods⟩ := Plan.run_append h
  obtain ⟨x₂, h, hproperties⟩ := Plan.run_append h
  obtain ⟨x₁, hhead, hextend⟩ := Plan.run_append h
  obtain ⟨as, xs, has, hxs, hg₁⟩ := headPlan_gives hhead
  obtain ⟨ts, hts, hg₂⟩ := interfacesPlan_gives (fun _ _ => rfl) hextend
  obtain ⟨ps, hps, hg₃⟩ := propertiesPlan_gives hproperties
  obtain ⟨ms, hms, hg₄⟩ := methodsPlan_gives hmethods
  have hgrown : Draft.Grown ⟨d.doc, as, xs, [], none, ts, ps.map .property ++ [] ++ ms.map .method⟩
      (.new _ d.name.value space) x := by
    simpa [Parts.append] using ((hg₁.trans hg₂).trans hg₃).trans hg₄
  rw [hgrown.build]
  exact ⟨rfl, rfl, rfl, has, modifiers_written hxs, shows_of_means hts, .none, ps, [], ms, rfl, hps,
    .nil, hms⟩

/-- A record that is built by its plan is what its definition gives. -/
lemma record_gives {d : RecordEntry} {space} {x : Draft .recordDecl}
    (h : (s.recordPlan d).run (.new _ d.name.value space) = .ok x) :
    Definition.Gives s (.ofRecord d) x.build := by
  obtain ⟨x₅, h, hmethods⟩ := Plan.run_append h
  obtain ⟨x₄, h, hproperties⟩ := Plan.run_append h
  obtain ⟨x₃, h, himplement⟩ := Plan.run_append h
  obtain ⟨x₂, h, hextend⟩ := Plan.run_append h
  obtain ⟨x₁, hhead, hparameters⟩ := Plan.run_append h
  obtain ⟨as, xs, has, hxs, hg₁⟩ := headPlan_gives hhead
  obtain ⟨qs, hqs, hg₂⟩ := parametersPlan_gives hparameters
  obtain ⟨base, hbase, hg₃⟩ := extendPlan_gives (fun _ _ => rfl) hextend
  obtain ⟨ts, hts, hg₄⟩ := interfacesPlan_gives (fun _ _ => rfl) himplement
  obtain ⟨ps, hps, hg₅⟩ := propertiesPlan_gives hproperties
  obtain ⟨ms, hms, hg₆⟩ := methodsPlan_gives hmethods
  have hgrown : Draft.Grown ⟨d.doc, as, xs, qs, base, ts, ps.map .property ++ [] ++ ms.map .method⟩
      (.new _ d.name.value space) x := by
    simpa [Parts.append] using ((((hg₁.trans hg₂).trans hg₃).trans hg₄).trans hg₅).trans hg₆
  rw [hgrown.build]
  exact ⟨rfl, rfl, rfl, has, modifiers_written hxs, shows_of_means (hbase.append hts),
    .some (gives_parameters hqs), ps, [], ms, rfl, hps, .nil, hms⟩

/-- A declaration that is built for a definition is what the definition gives. -/
lemma definition_gives {space} {d : Definition} {a : AnyDraft} (h : draft s space d = .ok a) :
    d.Gives s a.build := by
  cases d with
  | ofClass d =>
    obtain ⟨x, hx, rfl⟩ := map_eq_ok_iff.1 h
    exact class_gives hx
  | ofInterface d =>
    obtain ⟨x, hx, rfl⟩ := map_eq_ok_iff.1 h
    exact interface_gives hx
  | ofRecord d =>
    obtain ⟨x, hx, rfl⟩ := map_eq_ok_iff.1 h
    exact record_gives hx

/-- A region around a declaration does not change what it holds. -/
lemma gives_region {d : Definition} {x : Code.Declaration} {region} (h : d.Gives s x) :
    d.Gives s { x with region := region } :=
  ⟨h.kind, h.name, h.doc, h.attributes, h.modifiers, h.bases, h.parameters, h.members⟩

/-- The declarations of the file that is built stand side by side with the definitions. -/
lemma definitions_give {m : Manifest} {f} (hf : m.file = .ok f) :
    List.Forall₂ (Definition.Gives (.ofManifest m)) m.definitions f.declarations := by
  obtain ⟨drafts, hdrafts, hbuild⟩ := drafts_of_file hf
  obtain ⟨a, rest, -, rfl⟩ := file_of_build hbuild
  apply List.forall₂_map_right_iff.2
  apply hdrafts.imp
  intro d a ha
  split
  case isTrue => exact gives_region (definition_gives ha)
  case isFalse => exact definition_gives ha

/-- The definitions of a manifest stand in the order in which their names are written. -/
lemma definitions_pairwise (m : Manifest) :
    m.definitions.Pairwise fun a b => a.name.span.offset ≤ b.name.span.offset := by
  have hsorted : m.definitions.Pairwise fun a b =>
      decide (a.name.span.offset ≤ b.name.span.offset) = true := by
    apply List.pairwise_mergeSort
    · intro a b c hab hbc
      rw [decide_eq_true_eq] at *
      exact hab.trans hbc
    · intro a b
      rw [Bool.or_eq_true, decide_eq_true_eq, decide_eq_true_eq]
      exact le_total _ _
  exact hsorted.imp of_decide_eq_true

/-- The file of a manifest has one declaration for each class, interface and record, in the order in
which their names are written, and each declaration is what its definition gives. -/
theorem file_gives {m : Manifest} {f : Code.File} (hf : m.file = .ok f) :
    ∃ ds : List Definition,
      ds.Perm (m.classes.map .ofClass ++ m.interfaces.map .ofInterface ++
        m.records.map .ofRecord) ∧
      ds.Pairwise (fun a b => a.name.span.offset ≤ b.name.span.offset) ∧
      List.Forall₂ (Definition.Gives (.ofManifest m)) ds f.declarations :=
  ⟨m.definitions, List.mergeSort_perm _ _, definitions_pairwise m, definitions_give hf⟩

/-- An interface with one method. -/
def shape : InterfaceEntry where
  name := ⟨"IShape", ⟨10, 8⟩⟩
  doc := none
  modifiers := []
  bases := []
  attributes := []
  properties := []
  methods := [⟨⟨"Area", ⟨25, 6⟩⟩, none, [], [], none, none, []⟩]

/-- A class with a constructor that forwards its parameter and an abstract method. -/
def square : ClassEntry where
  name := ⟨"Square", ⟨40, 8⟩⟩
  doc := none
  modifiers := []
  base := none
  interfaces := [⟨"IShape", ⟨60, 8⟩⟩]
  attributes := [⟨⟨"Obsolete", ⟨70, 10⟩⟩, [⟨"1", ⟨80, 3⟩⟩]⟩]
  properties := [⟨⟨"Side", ⟨90, 6⟩⟩, ⟨"int", ⟨98, 5⟩⟩, none, none, none, []⟩]
  constructors :=
    [⟨[⟨⟨"side", ⟨110, 6⟩⟩, ⟨"int", ⟨118, 5⟩⟩⟩], none, some (.keyword "forward"),
      [⟨"Side = side", ⟨130, 13⟩⟩], none, []⟩]
  methods := [⟨⟨"Area", ⟨150, 6⟩⟩, none, [], [⟨"abstract", ⟨160, 10⟩⟩], none, none, []⟩]

/-- A manifest whose class is written after its interface. -/
def shapes : Manifest where
  space := "App"
  style := .file
  types := .empty
  classes := [square]
  interfaces := [shape]
  records := []
  document := ⟨"", ""⟩

/-- The interface is written before the class. -/
lemma definitions_shapes : shapes.definitions = [.ofInterface shape, .ofClass square] := by
  simp [definitions, shapes, List.mergeSort, List.MergeSort.Internal.splitInTwo, Definition.name,
    square, shape]

/-- The file of the manifest holds its interface and then its class, as they are defined. -/
theorem file_gives_shapes :
    ∃ f ds, shapes.file = .ok f ∧ f.declarations.map Code.Declaration.name = ["IShape", "Square"] ∧
      ds.Perm [.ofClass square, .ofInterface shape] ∧
      List.Forall₂ (Definition.Gives (.ofManifest shapes)) ds f.declarations := by
  have hnames : shapes.file.toOption.map (fun f => f.declarations.map Code.Declaration.name) =
      some ["IShape", "Square"] := by
    rw [file, project, Scope.ofManifest, Vocabulary.ofManifest, definitions_shapes]
    decide
  cases hf : shapes.file with
  | error e =>
    rw [hf] at hnames
    cases hnames
  | ok f =>
    rw [hf] at hnames
    obtain ⟨ds, hperm, -, hgives⟩ := file_gives hf
    exact ⟨f, ds, rfl, Option.some_inj.1 hnames, hperm, hgives⟩

end Manifest

end SharpSmith
