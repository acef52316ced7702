import LintTypes.Proofs.Acceptance
import LintTypes.Proofs.ReferenceCycles
import LintTypes.Proofs.SchemaPairs
import LintTypes.Proofs.Unfolding

/-!
# Hoisted schemas

Which schemas are declared, and by which names. Names are given before declarations are complete,
and declarations are completed in another order than names are given; so what can be said along a
run looks at its end. `Later` compares the states of a run, and `WorkedOut` says of a schema that
its keywords made a type at some time before the last state. Each place that gets a name during a
run is that of a titled schema that was worked out before the last state, where its type is declared
(`Recorded`). From there all schemas that the document leads to were worked out, step by step along
the way to them.
-/

namespace LintTypes.Schema

open Hoisting Relation

variable {context : Context} {depth : Nat} {active : List String} {node child : Node}
  {h h' h₁ last : Hoisted} {type : TypeExpr}

/-! ## States of a run -/

/-- The second state has the names and declarations of the first one. -/
structure Later (h h' : Hoisted) : Prop where
  names : NamesExtend (nameAt h) (nameAt h')
  declarations : h.declarations ⊆ h'.declarations

theorem Later.refl (h : Hoisted) : Later h h := ⟨NamesExtend.refl _, List.Subset.refl _⟩

theorem Later.trans (hl : Later h h₁) (hl' : Later h₁ h') : Later h h' :=
  ⟨hl.names.trans hl'.names, List.Subset.trans hl.declarations hl'.declarations⟩

/-- A name for a place without one is added to the others. -/
theorem later_withName {path : List Step} (hnone : nameAt h path = none) (name : String) :
    Later h (withName h path name) := by
  refine ⟨fun place name' hsome => ?_, List.Subset.refl _⟩
  rw [nameAt_withName, if_neg]
  · exact hsome
  · rintro rfl
    rw [hnone] at hsome
    cases hsome

theorem later_withDeclaration (h : Hoisted) (declaration : Declaration) :
    Later h (withDeclaration h declaration) :=
  ⟨NamesExtend.refl _, List.subset_append_left _ _⟩

/-- What giving names and adding declarations keep, a run keeps. -/
theorem typeAt_kept (good : Hoisted → Prop)
    (hname : ∀ h path title, good h → nameAt h path = none →
      good (withName h path (newName h title)))
    (hdeclare : ∀ h declaration, good h → good (withDeclaration h declaration)) (hg : good h)
    (hr : typeAt context depth active node h = .done type h') : good h' := by
  induction depth generalizing active node h type h' with
  | zero => cases hr
  | succ depth ih =>
    have hbody : ∀ {node : Node} {h h' : Hoisted} {type : TypeExpr}, good h →
        bodyAt context depth active node h = .done type h' → good h' :=
      fun hg hr => (bodyAt_done good (fun _ _ _ _ _ _ _ hg hr => ih hg hr) hg hr).1
    cases doneAt_of_typeAt context depth active hr with
    | untitled ht hdone => exact hbody hg hdone
    | named ht hgiven => exact hg
    | declared ht hnone hdone => exact hdeclare _ _ (hbody (hname _ _ _ hg hnone) hdone)

/-- So does one that works out the keywords of a schema. -/
theorem bodyAt_kept (good : Hoisted → Prop)
    (hname : ∀ h path title, good h → nameAt h path = none →
      good (withName h path (newName h title)))
    (hdeclare : ∀ h declaration, good h → good (withDeclaration h declaration)) (hg : good h)
    (hr : bodyAt context depth active node h = .done type h') : good h' :=
  (bodyAt_done good (fun _ _ _ _ _ _ _ => typeAt_kept good hname hdeclare) hg hr).1

/-- A run takes back no name and no declaration. -/
theorem typeAt_later (hr : typeAt context depth active node h = .done type h') : Later h h' :=
  typeAt_kept (Later h) (fun _ _ _ hl hnone => hl.trans (later_withName hnone _))
    (fun _ _ hl => hl.trans (later_withDeclaration _ _)) (.refl h) hr

theorem bodyAt_later (hr : bodyAt context depth active node h = .done type h') : Later h h' :=
  bodyAt_kept (Later h) (fun _ _ _ hl hnone => hl.trans (later_withName hnone _))
    (fun _ _ hl => hl.trans (later_withDeclaration _ _)) (.refl h) hr

/-- Different places have different names, all of them taken. -/
def NamesApart (h : Hoisted) : Prop :=
  (h.names.map Prod.snd).Nodup ∧ h.names.map Prod.snd ⊆ h.taken

/-- A new name is different from all those before it. -/
theorem NamesApart.withName (ha : NamesApart h) (path : List Step) (title : String) :
    NamesApart (withName h path (newName h title)) := by
  obtain ⟨hnodup, htaken⟩ := ha
  have hfree : newName h title ∉ h.taken := (Names.unusedName_spec _ _).2
  refine ⟨List.nodup_cons.2 ⟨fun hmem => hfree (htaken hmem), hnodup⟩, ?_⟩
  exact List.cons_subset_cons _ htaken

/-- Names that are apart tell their places. -/
theorem NamesApart.injective (ha : NamesApart h) {path path' : List Step} {name : String}
    (hp : nameAt h path = some name) (hp' : nameAt h path' = some name) : path = path' := by
  have hmem : ∀ {path}, nameAt h path = some name → (path, name) ∈ h.names := by
    intro path hp
    obtain ⟨before, after, hsplit, -⟩ := List.lookup_eq_some_iff.1 hp
    rw [hsplit]
    simp
  exact congrArg Prod.fst (List.inj_on_of_nodup_map ha.1 (hmem hp) (hmem hp') rfl)

/-! ## Schemas that were worked out -/

/-- At some time before the last state the keywords of the schema made the type. -/
def WorkedOut (context : Context) (last : Hoisted) (node : Node) (type : TypeExpr) : Prop :=
  ∃ depth active h h', bodyAt context depth active node h = .done type h' ∧ Later h' last

/-- The place is that of a titled schema that the document leads to. It was worked out, and its type
is declared by the name. -/
inductive Recorded (context : Context) (last : Hoisted) : List Step → String → Prop where
  | titled {node : Node} {title name : String} {type : TypeExpr} (ht : node.title? = some title)
      (hr : TransGen (LeadsTo context) (.root context.document) node)
      (hw : WorkedOut context last node type)
      (hd : .ofType name type (comment? node.value) ∈ last.declarations) :
      Recorded context last node.path name

/-- Each place that got a name in between is recorded. -/
def RecordsNew (context : Context) (last h h' : Hoisted) : Prop :=
  ∀ path name, nameAt h path = none → nameAt h' path = some name →
    Recorded context last path name

/-- What two runs in turn record, they record together. -/
theorem RecordsNew.trans (hr : RecordsNew context last h h₁) (hr' : RecordsNew context last h₁ h')
    (hl : Later h₁ h') : RecordsNew context last h h' := by
  intro path name hnone hsome
  cases hmid : nameAt h₁ path with
  | none => exact hr' path name hmid hsome
  | some name' =>
    have heq : some name' = some name := (hl.names path name' hmid).symm.trans hsome
    cases heq
    exact hr path name hnone hmid

/-- What a run on a schema inside the document records. -/
def Records (context : Context) (last : Hoisted) (depth : Nat) : Prop :=
  ∀ active node h type h', TransGen (LeadsTo context) (.root context.document) node →
    typeAt context depth active node h = .done type h' → Later h' last →
    RecordsNew context last h h'

/-- Working out the keywords of a schema records what the runs on the schemas inside record. -/
theorem Records.bodyAt (ih : Records context last depth)
    (hreach : Reaches context (.root context.document) node)
    (hr : Schema.bodyAt context depth active node h = .done type h') (hl : Later h' last) :
    RecordsNew context last h h' := by
  have hstart : RecordsNew context last h h := by
    intro path name hnone hsome
    rw [hnone] at hsome
    cases hsome
  have hbetween := bodyAt_between (fun h => Later h last) (RecordsNew context last h)
    (fun _ _ _ _ _ _ _ hr hl => (typeAt_later hr).trans hl)
    (fun child active' h₁ type' h₂ hleads _ hg hr hl => hg.trans
      (ih active' child h₁ type' h₂ (TransGen.tail' hreach hleads) hr hl) (typeAt_later hr)) hr hl
  exact (hbetween.2 hstart).1

/-- At every depth each place that gets a name is recorded. -/
theorem records (context : Context) (last : Hoisted) (depth : Nat) :
    Records context last depth := by
  induction depth with
  | zero =>
    intro active node h type h' _ hr
    cases hr
  | succ depth ih =>
    intro active node h type h' hreach hr hl
    cases doneAt_of_typeAt context depth active hr with
    | untitled ht hdone => exact ih.bodyAt hreach.to_reflTransGen hdone hl
    | named ht hgiven =>
      intro path name hnone hsome
      rw [hnone] at hsome
      cases hsome
    | @declared title type h₁ ht hnone hdone =>
      -- The schema itself got its name here, any other place while its keywords were worked out.
      have hl₁ : Later h₁ last := (later_withDeclaration _ _).trans hl
      intro path name hunnamed hsome
      by_cases hpath : path = node.path
      · subst hpath
        have hgiven : nameAt h₁ node.path = some (newName h title) :=
          (bodyAt_later hdone).names _ _ (by rw [nameAt_withName, if_pos rfl])
        have hname : some name = some (newName h title) := hsome.symm.trans hgiven
        cases hname
        exact .titled ht hreach ⟨_, _, _, _, hdone, hl₁⟩
          (hl.declarations (List.mem_append_right _ (List.mem_singleton_self _)))
      · refine ih.bodyAt hreach.to_reflTransGen hdone hl₁ path name ?_ hsome
        rw [nameAt_withName, if_neg hpath]
        exact hunnamed

/-- A schema at its place was given the type: what its keywords made, or the name that it has. -/
inductive MetAs (context : Context) (last : Hoisted) (node : Node) : TypeExpr → Prop where
  | untitled {type : TypeExpr} (ht : node.title? = none) (hw : WorkedOut context last node type) :
      MetAs context last node type
  | titled {title name : String} (ht : node.title? = some title)
      (hname : nameAt last node.path = some name) : MetAs context last node (.named name)

/-- What a run yields is the type that the schema was given. -/
theorem metAs_of_typeAt (hr : typeAt context depth active node h = .done type h')
    (hl : Later h' last) : MetAs context last node type := by
  cases depth with
  | zero => cases hr
  | succ depth =>
    cases doneAt_of_typeAt context depth active hr with
    | untitled ht hdone => exact .untitled ht ⟨_, _, _, _, hdone, hl⟩
    | named ht hname => exact .titled ht (hl.names _ _ hname)
    | declared ht hnone hdone =>
      refine .titled ht (hl.names _ _ ((bodyAt_later hdone).names _ _ ?_))
      rw [nameAt_withName, if_pos rfl]

/-- What a schema leads to that was worked out was given a type. -/
theorem WorkedOut.leadsTo (hw : WorkedOut context last node type)
    (hl : LeadsTo context node child) : ∃ type', MetAs context last child type' := by
  obtain ⟨depth, active, h, h', hr, hlast⟩ := hw
  have hbetween := bodyAt_between (fun h => Later h last) (fun _ => True)
    (fun _ _ _ _ _ _ _ hr hl => (typeAt_later hr).trans hl) (fun _ _ _ _ _ _ _ _ _ _ => trivial)
    hr hlast
  obtain ⟨active', h₁, type', h₂, -, -, hlast', hdone⟩ := (hbetween.2 trivial).2 child hl
  exact ⟨type', metAs_of_typeAt hdone hlast'⟩

/-- All that the document leads to is inside of it. -/
theorem inDocument_of_reaches (hd : context.document.Distinct)
    (hr : Reaches context (.root context.document) node) : node.InDocument context.document := by
  induction hr with
  | refl => exact Node.root_inDocument _
  | tail _ hl ih => exact hl.inDocument hd ih

/-! ## References -/

/-- No schema that the document leads to has a type that is written out as text. -/
def NoWrittenTypes (context : Context) : Prop :=
  ∀ node, Reaches context (.root context.document) node →
    (node.value.get? "tsType").bind Json.string? = none

/-- The part is no reference, or one to the document or to a place that has a name. -/
def Resolved (context : Context) (last : Hoisted) (part : TypeExpr) : Prop :=
  ∀ name args, part = .reference name args →
    name = context.name ∨ ∃ path, nameAt last path = some name

theorem resolved_named {name : String}
    (h : name = context.name ∨ ∃ path, nameAt last path = some name) :
    ∀ part ∈ (TypeExpr.named name).parts, Resolved context last part := by
  refine forall_parts_reference.2 ⟨?_, by simp⟩
  rintro _ _ ⟨⟩
  exact h

/-- What is asked for takes back nothing either. -/
theorem meet_later {demand : Demand} (hr : demand.meet (typeAt context depth active)
      (referredType context (typeAt context depth) active) h = .done type h') : Later h h' := by
  rcases Demand.leadsTo_or_named hr with ⟨child, hleads⟩ | ⟨-, rfl⟩
  · obtain ⟨active', -, hdone⟩ := hleads.done hr
    exact typeAt_later hdone
  · exact .refl _

/-- The types that a run makes of the schemas of the document have a property. -/
def Makes (good : TypeExpr → Prop) (context : Context) (last : Hoisted) (depth : Nat) : Prop :=
  ∀ active node h type h', Reaches context (.root context.document) node →
    typeAt context depth active node h = .done type h' → Later h' last → good type

section Makes

variable {good : TypeExpr → Prop} (hgood : Respected (fun type _ => good type) fun _ _ => True)
  (hempty : ∀ node, Reaches context (.root context.document) node → EmptyIntersection node →
    good .unknown)
  (hunknown : good context.unknown) (hdocument : good (.named context.name))
  (hw : NoWrittenTypes context)
include hgood hempty hunknown hdocument hw

/-- The keywords of a schema make good types of those of the schemas inside. -/
theorem Makes.bodyAt (ih : Makes good context last depth)
    (hreach : Reaches context (.root context.document) node)
    (hr : Schema.bodyAt context depth active node h = .done type h') (hl : Later h' last) :
    good type := by
  refine (meetBoth_typeOfSchema hgood (contextPair_self hunknown) (fun text htext => ?_)
    (hempty node hreach) (corresponds_self (fun _ => rfl) (fun _ => trivial) context node)).done
    (fun h => Later h last) (fun demand _ h type h' hr hl => (meet_later hr).trans hl)
    (fun demand hmem demand' _ h type h' _ _ _ hr hl _ => ?_)
    (fun child _ hmem _ _ h type h' => ih active child h type h' (hreach.tail (.inner hmem)))
    hr hl hr
  · rw [hw node hreach] at htext
    cases htext
  · rcases Demand.leadsTo_or_named hr with ⟨child, hleads⟩ | ⟨rfl, -⟩
    · obtain ⟨active', -, hdone⟩ := hleads.done hr
      exact ih active' child h type h' (hreach.tail ⟨demand, hmem, hleads⟩) hdone hl
    · exact hdocument

variable (hnames : ∀ path name, nameAt last path = some name → good (.named name))
include hnames

/-- At every depth the types that are made are good, given good names. -/
theorem makes (depth : Nat) : Makes good context last depth := by
  induction depth with
  | zero =>
    intro active node h type h' _ hr
    cases hr
  | succ depth ih =>
    intro active node h type h' hreach hr hl
    cases metAs_of_typeAt hr hl with
    | untitled ht hw' =>
      rw [typeAt_untitled _ _ _ ht] at hr
      exact ih.bodyAt hgood hempty hunknown hdocument hw hreach hr hl
    | titled ht hname => exact hnames _ _ hname

/-- A property of names that is respected by all that is done to make types holds of all types that
were worked out. -/
theorem WorkedOut.has (hworked : WorkedOut context last node type)
    (hreach : Reaches context (.root context.document) node) : good type := by
  obtain ⟨depth, active, h, h', hr, hl⟩ := hworked
  exact (makes hgood hempty hunknown hdocument hw hnames depth).bodyAt hgood hempty hunknown
    hdocument hw hreach hr hl

end Makes

/-- In a type that was worked out every reference is to the document or to a named place. -/
theorem WorkedOut.resolved (hw : WorkedOut context last node type) (hn : NoWrittenTypes context)
    (hreach : Reaches context (.root context.document) node) :
    ∀ part ∈ type.parts, Resolved context last part := by
  have hplain : ∀ type, (∀ name args, type ≠ .reference name args) → Resolved context last type :=
    fun type hne name args heq => absurd heq (hne name args)
  have hunknown : ∀ part ∈ context.unknown.parts, Resolved context last part := by
    unfold Context.unknown
    split
    · simpa [TypeExpr.parts] using hplain .unknown (by simp)
    · simpa [TypeExpr.parts] using hplain .any (by simp)
  have hc := congruent_parts hplain [] 0
  exact hw.has hc.toRespected (fun _ _ _ => hc.unknown) hunknown (resolved_named (.inl rfl)) hn
    (fun path name hname => resolved_named (.inr ⟨path, hname⟩)) hreach

/-- A schema that refers to another one is worked out as that one. -/
theorem bodyAt_of_ref {reference : String}
    (hr : node.value.get? "$ref" = some (.string reference)) :
    bodyAt context depth active node =
      referredType context (typeAt context depth) active reference := by
  obtain ⟨fields, hv⟩ := object_of_get? hr
  unfold bodyAt typeOfSchema
  simp only [hv, typeByKeywords, hv ▸ hr]

theorem DeclaredAt.named {names : Names} {name : String} {declaration : Declaration}
    (h : DeclaredAt context names node name declaration) : names node.path = some name := by
  cases h
  assumption

/-! ## The run on a document -/

/-- The run on the document from the state that only its own name is taken in. -/
structure DocumentRun (context : Context) (type : TypeExpr) (last : Hoisted) : Prop where
  ofRun ::
  run : ∃ depth, typeOfDocument context depth { taken := [context.name] } = .done type last

section Documents

variable (hrun : DocumentRun context type last)
include hrun

/-- The document itself was worked out, -/
theorem DocumentRun.workedOut : WorkedOut context last (.root context.document) type := by
  obtain ⟨depth, hr⟩ := hrun
  exact ⟨depth, [], _, last, hr, .refl last⟩

/-- and different places have different names in the end. -/
theorem DocumentRun.namesApart : NamesApart last := by
  obtain ⟨depth, hr⟩ := hrun
  have hstart : NamesApart { taken := [context.name] } := ⟨List.nodup_nil, List.nil_subset _⟩
  exact bodyAt_kept NamesApart (fun _ _ _ ha _ => ha.withName _ _) (fun _ _ ha => ha) hstart hr

/-- Each place that has a name in the end is recorded. -/
theorem DocumentRun.recorded {path : List Step} {name : String}
    (hname : nameAt last path = some name) : Recorded context last path name := by
  obtain ⟨depth, hr⟩ := hrun
  exact (records context last depth).bodyAt .refl hr (.refl last) path name rfl hname

/-- What is recorded for the place of a schema is recorded for that schema. -/
theorem DocumentRun.recorded_node (hd : context.document.Distinct)
    (hn : node.InDocument context.document) {name : String}
    (hname : nameAt last node.path = some name) :
    (∃ title, node.title? = some title) ∧
      TransGen (LeadsTo context) (.root context.document) node ∧
      ∃ type, WorkedOut context last node type ∧
        .ofType name type (comment? node.value) ∈ last.declarations := by
  generalize hpath : node.path = path at hname
  obtain ⟨ht, hr, hw, hmem⟩ := hrun.recorded hname
  cases hn.ext (inDocument_of_reaches hd hr.to_reflTransGen) hpath
  exact ⟨⟨_, ht⟩, hr, _, hw, hmem⟩

/-- All schemas that the document leads to were worked out. -/
theorem DocumentRun.reached (hd : context.document.Distinct)
    (hr : Reaches context (.root context.document) node) :
    ∃ type, WorkedOut context last node type := by
  induction hr with
  | refl => exact ⟨type, hrun.workedOut⟩
  | @tail parent node hreach hl ih =>
    obtain ⟨_, hw⟩ := ih
    obtain ⟨type', hmet⟩ := hw.leadsTo hl
    cases hmet with
    | untitled ht hw => exact ⟨type', hw⟩
    | titled ht hname =>
      have hn := inDocument_of_reaches hd (hreach.tail hl)
      obtain ⟨-, -, type, hw, -⟩ := hrun.recorded_node hd hn hname
      exact ⟨type, hw⟩

/-- The titled schemas below the document have names. -/
theorem DocumentRun.named (hd : context.document.Distinct)
    (hr : TransGen (LeadsTo context) (.root context.document) node) {title : String}
    (ht : node.title? = some title) : ∃ name, nameAt last node.path = some name := by
  obtain ⟨parent, hreach, hl⟩ := TransGen.tail'_iff.1 hr
  obtain ⟨_, hw⟩ := hrun.reached hd hreach
  obtain ⟨_, hmet⟩ := hw.leadsTo hl
  cases hmet with
  | untitled hnone =>
    rw [ht] at hnone
    cases hnone
  | titled _ hname => exact ⟨_, hname⟩

/-- The type of each declaration was worked out for a schema that the document leads to. -/
theorem DocumentRun.exists_workedOut (hd : context.document.Distinct) {declaration : Declaration}
    (hmem : declaration ∈ last.declarations) :
    ∃ node type, Reaches context (.root context.document) node ∧ WorkedOut context last node type ∧
      declaration = .ofType declaration.name type (comment? node.value) := by
  obtain ⟨_, hdone⟩ := hrun.run
  have hdeclares := declaresDocument_of_done (closed_inDocument hd)
    (Node.root_inDocument context.document) hdone
  obtain ⟨node, hin, hdeclared⟩ := hdeclares.originate declaration hmem
  obtain ⟨-, hreach, type, hworked, hmem'⟩ := hrun.recorded_node hd hin hdeclared.named
  refine ⟨node, type, hreach.to_reflTransGen, hworked, ?_⟩
  exact List.inj_on_of_nodup_map hdeclares.nodup.of_cons hmem hmem'
    (Declaration.name_ofType ..).symm

/-- A schema below the document is declared by the name that it has. -/
theorem DocumentRun.declared (hd : context.document.Distinct)
    (hr : Reaches context (.root context.document) node) {name : String}
    (hname : nameAt last node.path = some name) :
    ∃ type, WorkedOut context last node type ∧
      .ofType name type (comment? node.value) ∈ last.declarations :=
  (hrun.recorded_node hd (inDocument_of_reaches hd hr) hname).2.2

end Documents

/-! ## The nodes of declarations -/

/-- The declaration is that of the node. -/
def Declares (context : Context) (last : Hoisted) (node : Node) (declaration : Declaration) :
    Prop :=
  node.InDocument context.document ∧
    DeclaredAt context (nameAt last) node declaration.name declaration

section Nodes

variable {nodes : List Node}
  (hnodes : List.Forall₂ (Declares context last) nodes last.declarations)
include hnodes

theorem nodup_of_declares (hnodup : (last.declarations.map Declaration.name).Nodup) :
    nodes.Nodup := by
  have hnames : nodes.map (fun node => nameAt last node.path) =
      (last.declarations.map Declaration.name).map some := by
    rw [List.map_map]
    exact map_eq_of_forall₂ hnodes fun node declaration h => h.2.named
  refine List.Nodup.of_map (fun node => nameAt last node.path) ?_
  rw [hnames]
  exact hnodup.map (Option.some_injective _)

variable (hrun : DocumentRun context type last)
include hrun

/-- Different nodes have different names. -/
theorem DocumentRun.eq_of_name {other : Node} (hnode : node ∈ nodes) (hother : other ∈ nodes)
    (h : nameAt last node.path = nameAt last other.path) : node = other := by
  obtain ⟨declaration, -, hin, hdeclared⟩ := (forall₂_exists hnodes).1 node hnode
  obtain ⟨-, -, hin', -⟩ := (forall₂_exists hnodes).1 other hother
  have hname := hdeclared.named
  exact hin.ext hin' (hrun.namesApart.injective hname (h ▸ hname))

variable (hd : context.document.Distinct)
include hd

/-- The nodes of the declarations are the titled schemas below the document. -/
theorem DocumentRun.mem_nodes_iff (node : Node) :
    node ∈ nodes ↔
      node.title?.isSome ∧ TransGen (LeadsTo context) (.root context.document) node := by
  constructor
  · intro hnode
    obtain ⟨declaration, -, hin, hdeclared⟩ := (forall₂_exists hnodes).1 node hnode
    obtain ⟨⟨title, ht⟩, hr, -⟩ := hrun.recorded_node hd hin hdeclared.named
    exact ⟨by rw [ht]; rfl, hr⟩
  · rintro ⟨ht, hr⟩
    obtain ⟨title, ht⟩ := Option.isSome_iff_exists.1 ht
    obtain ⟨name, hname⟩ := hrun.named hd hr ht
    obtain ⟨type, -, hmem⟩ := hrun.declared hd hr.to_reflTransGen hname
    obtain ⟨other, hother, hin, hdeclared⟩ := (forall₂_exists hnodes).2 _ hmem
    have hsame := hdeclared.named
    rw [Declaration.name_ofType] at hsame
    have hpath := hrun.namesApart.injective hname hsame
    cases (inDocument_of_reaches hd hr.to_reflTransGen).ext hin hpath
    exact hother

end Nodes

/-! ## The declarations of a document -/

/-- The declarations of a document: its own and, one for each, those of the titled schemas that it
leads to, where `names` are the names of these. -/
structure HoistsOnce (context : Context) (names : Names) (nodes : List Node)
    (declarations : Declarations) : Prop where
  /-- The first declaration is that of the document. Wherever a titled schema occurs in it or is
  referred to, its type is its name. -/
  first : ∃ type depth others,
    declarations = .ofType context.name type (comment? context.document) :: others ∧
      SchemaTyped context (Typed context names depth) (.root context.document) type
  /-- A schema has one type, wherever it occurs and from wherever it is referred to. -/
  alike : ∀ node depth depth' type type', Typed context names depth node type →
    Typed context names depth' node type' → type = type'
  /-- No name is declared twice. -/
  distinct : (declarations.map Declaration.name).Nodup
  /-- Each reference, wherever it stands, is to a declaration. -/
  closed : ∀ declaration ∈ declarations, ∀ name args,
    .reference name args ∈ declaration.type.parts → name ∈ declarations.map Declaration.name
  /-- The nodes are the titled schemas below the document, -/
  reached : ∀ node, node ∈ nodes ↔
    node.title?.isSome ∧ TransGen (LeadsTo context) (.root context.document) node
  /-- each listed once. -/
  nodup : nodes.Nodup
  /-- The other declarations are theirs, each under the name of its node. What is said of the first
  declaration goes for them as well. -/
  declared : List.Forall₂
    (fun node declaration => DeclaredAt context names node declaration.name declaration) nodes
    declarations.tail
  /-- Different nodes have different names. -/
  apart : ∀ node ∈ nodes, ∀ other ∈ nodes, names node.path = names other.path → node = other

theorem exists_forall₂ {α β : Type} {R : α → β → Prop} {ys : List β} (h : ∀ y ∈ ys, ∃ x, R x y) :
    ∃ xs, List.Forall₂ R xs ys := by
  induction ys with
  | nil => exact ⟨[], .nil⟩
  | cons y ys ih =>
    obtain ⟨⟨x, hx⟩, hrest⟩ := List.forall_mem_cons.1 h
    obtain ⟨xs, hxs⟩ := ih hrest
    exact ⟨x :: xs, .cons hx hxs⟩

/-- The declarations that a run on the document comes to. -/
abbrev documentDeclarations (context : Context) (type : TypeExpr) (last : Hoisted) :
    Declarations :=
  .ofType context.name type (comment? context.document) :: last.declarations

/-- A run on a document without written types declares it and each titled schema that it leads to,
under the names that these have in the end. -/
theorem DocumentRun.hoistsOnce (hrun : DocumentRun context type last)
    (hd : context.document.Distinct) (hw : NoWrittenTypes context) :
    ∃ nodes, HoistsOnce context (nameAt last) nodes (documentDeclarations context type last) := by
  obtain ⟨_, hdone⟩ := hrun.run
  have hdeclares := declaresDocument_of_done (closed_inDocument hd)
    (Node.root_inDocument context.document) hdone
  have hnodup := hdeclares.nodup.of_cons
  obtain ⟨nodes, hnodes⟩ : ∃ nodes, List.Forall₂ (Declares context last) nodes last.declarations :=
    exists_forall₂ hdeclares.originate
  have hresolved : ∀ declaration ∈ documentDeclarations context type last,
      ∀ part ∈ declaration.type.parts, Resolved context last part := by
    refine List.forall_mem_cons.2 ⟨?_, fun declaration hmem => ?_⟩
    · rw [Declaration.type_ofType]
      exact hrun.workedOut.resolved hw .refl
    · obtain ⟨node, type, hreach, hworked, heq⟩ := hrun.exists_workedOut hd hmem
      rw [heq, Declaration.type_ofType]
      exact hworked.resolved hw hreach
  obtain ⟨depth, htyped⟩ := hdeclares.typed
  refine ⟨nodes, ⟨type, depth, _, rfl, htyped⟩, fun _ _ _ _ _ => Typed.unique, ?distinct, ?closed,
    hrun.mem_nodes_iff hnodes hd, nodup_of_declares hnodes hnodup,
    hnodes.imp fun node declaration h => h.2,
    fun node hnode other hother => hrun.eq_of_name hnodes hnode hother⟩
  case distinct => simpa using hdeclares.nodup
  case closed =>
    intro declaration hmem other args hpart
    rcases hresolved declaration hmem _ hpart other args rfl with rfl | ⟨path, hpath⟩
    · simp
    · obtain ⟨-, -, -, hmem'⟩ := hrun.recorded hpath
      exact List.mem_map.2 ⟨_, List.mem_cons_of_mem _ hmem', Declaration.name_ofType ..⟩

/-- The declarations of a document without written types are its own and one for each titled schema
that it leads to, under names that are all different; and all references are to them. -/
theorem declarations_hoisted {document : Json} {name : String} {style : Style}
    {declarations : Declarations} (hd : document.Distinct)
    (hw : NoWrittenTypes ⟨document, name, style⟩)
    (h : Schema.declarations document name style = .ok declarations) :
    ∃ names nodes, HoistsOnce ⟨document, name, style⟩ names nodes declarations := by
  obtain ⟨type, last, hdone, rfl⟩ := declarations_ok h
  have hrun : DocumentRun ⟨document, name, style⟩ type last := ⟨⟨_, hdone⟩⟩
  obtain ⟨nodes, hoists⟩ := hrun.hoistsOnce hd hw
  exact ⟨nameAt last, nodes, hoists⟩

theorem noWrittenTypes_of_lacks {context : Context} (hd : context.document.Distinct)
    (h : context.document.Lacks "tsType") : NoWrittenTypes context := by
  intro node hreach
  have hlacks : node.value.Lacks "tsType" :=
    Json.at?_kept (fun _ _ _ h hs => h.step? hs) h (inDocument_of_reaches hd hreach)
  rw [hlacks.get?]
  rfl

/-- An object with a titled property, a reference to it, and another property under nearly the same
title whose items are of its own type. -/
def sharedTitles : Json :=
  .object
    [("additionalProperties", .bool false),
      ("properties", .object
        [("mode", .object
          [("title", .string "Mode option"), ("enum", .array [.string "a", .string "b"])]),
        ("again", .object [("$ref", .string "#/properties/mode")]),
        ("other", .object
          [("title", .string "mode option"),
            ("items", .object [("$ref", .string "#/properties/other")])])])]

/-- The two titles are told apart by a number, and the references lead to the names. -/
theorem declarations_hoisted_sharedTitles :
    sharedTitles.Distinct ∧ NoWrittenTypes ⟨sharedTitles, "Schema0", {}⟩ ∧
      ∃ declarations, Schema.declarations sharedTitles "Schema0" {} = .ok declarations ∧
        declarations.map Declaration.name = ["Schema0", "ModeOption", "ModeOption1"] ∧
        ∃ names nodes, HoistsOnce ⟨sharedTitles, "Schema0", {}⟩ names nodes declarations := by
  have hd : sharedTitles.Distinct := by simp [sharedTitles]
  have hw : NoWrittenTypes ⟨sharedTitles, "Schema0", {}⟩ :=
    noWrittenTypes_of_lacks hd (by simp [sharedTitles])
  exact ⟨hd, hw, _, rfl, rfl, declarations_hoisted hd hw rfl⟩

end LintTypes.Schema
