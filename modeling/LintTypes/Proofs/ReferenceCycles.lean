import LintTypes.Proofs.DepthBound
import Mathlib.Logic.Relation
import Mathlib.Order.Nat

/-!
# Cycles of references

A schema leads to the schemas inside it and to the one that it refers to. Where the way comes back,
a title on it is meant to end it: a titled schema is declared once and has its name as its type from
then on.

What the check of references does is a little different. A reference to an untitled schema may not
be met again while it is being followed, and it goes on being followed while titled schemas on the
way are worked out for the first time. So only a reference is blamed that leads to an untitled
schema and from there back to itself, and a document that leads to a cycle without titles is always
refused. A cycle with titles on it is refused as well if it is entered by a reference to an untitled
schema, and is not if it is entered by one to a titled schema.

The last two go the same way. Suppose that some schemas, the base, cannot be worked out by their
keywords. Then what leads to them cannot be worked out either, unless a title cuts the way short;
and on the shortest way to the base each titled schema is met for the first time.
-/

namespace LintTypes.Schema

open Hoisting Relation

variable {context : Context} {node child : Node} {active : List String}

/-! ## Ways -/

/-- What is demanded is the type of the schema. -/
inductive Demand.LeadsTo (context : Context) : Demand → Node → Prop where
  | inner (node : Node) : LeadsTo context (.inner node) node
  | referred {reference : String} {node : Node} (ht : target context reference = .ok (.node node)) :
      LeadsTo context (.referred reference) node

/-- The type of a schema depends on that of another one. -/
def LeadsTo (context : Context) (node child : Node) : Prop :=
  ∃ demand ∈ demands node, demand.LeadsTo context child

/-- A schema leads to another one in any number of steps. -/
abbrev Reaches (context : Context) : Node → Node → Prop := ReflTransGen (LeadsTo context)

/-- A way leads from the schema back to it, and no schema on it has a title. -/
def OnUntitledCycle (context : Context) (node : Node) : Prop :=
  TransGen (fun parent child => LeadsTo context parent child ∧ child.title? = none) node node

theorem LeadsTo.inner (h : .inner child ∈ demands node) : LeadsTo context node child :=
  ⟨_, h, .inner child⟩

theorem LeadsTo.referred {reference : String} (h : .referred reference ∈ demands node)
    (ht : target context reference = .ok (.node child)) : LeadsTo context node child :=
  ⟨_, h, .referred ht⟩

theorem LeadsTo.inDocument (hd : context.document.Distinct)
    (hn : node.InDocument context.document) (h : LeadsTo context node child) :
    child.InDocument context.document := by
  obtain ⟨demand, hmem, hleads⟩ := h
  cases hleads with
  | inner => exact inDocument_of_demand hd hn hmem
  | referred ht =>
    obtain ⟨pointer, -, hresolve⟩ := target_node ht
    exact Pointer.resolve?_inDocument hresolve

/-! ## Blame for a cycle -/

/-- The references that are being followed lead here. -/
def FollowedTo (context : Context) (active : List String) (node : Node) : Prop :=
  ∀ reference ∈ active, ∃ start, target context reference = .ok (.node start) ∧
    Reaches context start node

theorem FollowedTo.leadsTo (hf : FollowedTo context active node) (h : LeadsTo context node child) :
    FollowedTo context active child := by
  intro reference hreference
  obtain ⟨start, htarget, hreaches⟩ := hf reference hreference
  exact ⟨start, htarget, hreaches.tail h⟩

theorem FollowedTo.cons (hf : FollowedTo context active node) {reference : String}
    (hr : .referred reference ∈ demands node)
    (ht : target context reference = .ok (.node child)) :
    FollowedTo context (reference :: active) child :=
  List.forall_mem_cons.2 ⟨⟨child, ht, .refl⟩, hf.leadsTo (.referred hr ht)⟩

/-- The reference leads to an untitled schema and from there back to itself. -/
def OnCycle (context : Context) (start : Node) (reference : String) : Prop :=
  ∃ parent child, Reaches context start parent ∧ .referred reference ∈ demands parent ∧
    target context reference = .ok (.node child) ∧ child.title? = none ∧
    Reaches context child parent

theorem OnCycle.head {reference : String} (hl : LeadsTo context node child)
    (h : OnCycle context child reference) : OnCycle context node reference := by
  obtain ⟨parent, start, hreaches, hrest⟩ := h
  exact ⟨parent, start, hreaches.head hl, hrest⟩

/-- The reference that is blamed for a cycle is on one. -/
theorem Blamed.onCycle {problem : SchemaProblem} (hb : Blamed context active node problem)
    (hf : FollowedTo context active node) {reference : String}
    (hp : problem = .untitledCycle reference) : OnCycle context node reference := by
  induction hb with
  | refused h =>
    subst hp
    cases isOwn_of_refused h
  | targetless _ ht =>
    subst hp
    cases isOwn_of_target ht
  | @cycle active node child _ h ht hu ha =>
    cases hp
    obtain ⟨start, htarget, hreaches⟩ := hf reference ha
    rw [ht] at htarget
    cases htarget
    exact ⟨node, child, .refl, h, ht, hu, hreaches⟩
  | @inner active node child _ h _ ih =>
    have hleads : LeadsTo context node child := .inner h
    exact (ih (hf.leadsTo hleads) hp).head hleads
  | @titled active node child _ _ h ht _ ih =>
    have hleads : LeadsTo context node child := .referred h ht
    exact (ih (hf.leadsTo hleads) hp).head hleads
  | @followed active node child _ _ h ht _ ih =>
    exact (ih (hf.cons h ht) hp).head (.referred h ht)

/-! ## What is done -/

section Done

variable {depth : Nat} {h h' : Hoisted} {type : TypeExpr} {demand : Demand}

/-- The demand is met by working out the schema that it leads to. -/
theorem Demand.LeadsTo.done (hl : demand.LeadsTo context child)
    (hr : demand.meet (typeAt context depth active)
      (referredType context (typeAt context depth) active) h = .done type h') :
    ∃ active', active ⊆ active' ∧ typeAt context depth active' child h = .done type h' := by
  cases hl with
  | inner => exact ⟨active, List.Subset.refl _, hr⟩
  | @referred reference _ ht =>
    have hr : referredType context (typeAt context depth) active reference h = .done type h' := hr
    cases htitle : child.title? with
    | some title =>
      rw [referredType_titled _ _ ht htitle] at hr
      exact ⟨active, List.Subset.refl _, hr⟩
    | none =>
      by_cases hactive : reference ∈ active
      · rw [referredType_active _ ht htitle hactive] at hr
        cases hr
      · rw [referredType_followed _ ht htitle hactive] at hr
        exact ⟨reference :: active, List.subset_cons_self _ _, hr⟩

/-- A demand that is met leads to a schema, or is met by the name of the document. -/
theorem Demand.leadsTo_or_named {typeOf : Node → Hoisting TypeExpr}
    (hr : demand.meet typeOf (referredType context (typeAt context depth) active) h =
      .done type h') :
    (∃ child, demand.LeadsTo context child) ∨ type = .named context.name ∧ h' = h := by
  cases demand with
  | inner child => exact .inl ⟨child, .inner child⟩
  | refused problem => cases hr
  | referred reference =>
    have hr : referredType context (typeAt context depth) active reference h = .done type h' := hr
    cases referral context active reference with
    | targetless _ href =>
      rw [href] at hr
      cases hr
    | document _ href =>
      rw [href] at hr
      cases hr
      exact .inr ⟨rfl, rfl⟩
    | titled ht | again ht | followed ht => exact .inl ⟨_, .referred ht⟩

/-- When the keywords of a schema are done, so is all that it leads to. If they end early they began
early, and what the schemas keep of the state as long as they end early is kept. -/
theorem bodyAt_between (early good : Hoisted → Prop)
    (hback : ∀ child active' h type h', LeadsTo context node child → active ⊆ active' →
      typeAt context depth active' child h = .done type h' → early h' → early h)
    (hkept : ∀ child active' h type h', LeadsTo context node child → active ⊆ active' → good h →
      typeAt context depth active' child h = .done type h' → early h' → good h')
    (hr : bodyAt context depth active node h = .done type h') (he : early h') :
    early h ∧ (good h → good h' ∧ ∀ child, LeadsTo context node child →
      ∃ active' h₁ type' h₂, active ⊆ active' ∧ good h₁ ∧ early h₂ ∧
        typeAt context depth active' child h₁ = .done type' h₂) := by
  have hdemand : ∀ demand ∈ demands node, ∀ h type h',
      demand.meet (typeAt context depth active)
        (referredType context (typeAt context depth) active) h = .done type h' →
      (∃ child active', LeadsTo context node child ∧ active ⊆ active' ∧
        typeAt context depth active' child h = .done type h') ∨ h' = h := by
    intro demand hmem h type h' hr
    rcases Demand.leadsTo_or_named hr with ⟨child, hleads⟩ | ⟨-, hsame⟩
    · obtain ⟨active', hsub, hdone⟩ := hleads.done hr
      exact .inl ⟨child, active', ⟨demand, hmem, hleads⟩, hsub, hdone⟩
    · exact .inr hsame
  obtain ⟨he', hmet⟩ := (meets_typeOfSchema context node).between early good
    (fun demand hmem h type h' hr he => by
      rcases hdemand demand hmem h type h' hr with ⟨child, active', hl, hsub, hdone⟩ | rfl
      · exact hback child active' h type h' hl hsub hdone he
      · exact he)
    (fun demand hmem h type h' hg hr he => by
      rcases hdemand demand hmem h type h' hr with ⟨child, active', hl, hsub, hdone⟩ | rfl
      · exact hkept child active' h type h' hl hsub hg hdone he
      · exact hg)
    hr he
  refine ⟨he', fun hg => ?_⟩
  obtain ⟨hg', hmet⟩ := hmet hg
  refine ⟨hg', fun child ⟨demand, hmem, hleads⟩ => ?_⟩
  obtain ⟨h₁, type', h₂, hg₁, he₂, hdone⟩ := hmet demand hmem
  obtain ⟨active', hsub, hdone⟩ := hleads.done hdone
  exact ⟨active', h₁, type', h₂, hsub, hg₁, he₂, hdone⟩

/-- When the keywords of a schema are done, so is all that it leads to, and what that keeps of the
state is kept. -/
theorem bodyAt_done (good : Hoisted → Prop)
    (hkept : ∀ child active' h type h', LeadsTo context node child → active ⊆ active' → good h →
      typeAt context depth active' child h = .done type h' → good h')
    (hg : good h) (hr : bodyAt context depth active node h = .done type h') :
    good h' ∧ ∀ child, LeadsTo context node child → ∃ active' h₁ type' h₂, active ⊆ active' ∧
      good h₁ ∧ typeAt context depth active' child h₁ = .done type' h₂ := by
  obtain ⟨hg', hmet⟩ := (bodyAt_between (fun _ => True) good (fun _ _ _ _ _ _ _ _ _ => trivial)
    (fun child active' h type h' hl hsub hg hr _ => hkept child active' h type h' hl hsub hg hr)
    hr trivial).2 hg
  refine ⟨hg', fun child hl => ?_⟩
  obtain ⟨active', h₁, type', h₂, hsub, hg₁, -, hdone⟩ := hmet child hl
  exact ⟨active', h₁, type', h₂, hsub, hg₁, hdone⟩

end Done

/-! ## Ways to schemas that cannot be worked out -/

/-- The keywords of the schema cannot be worked out while the references are being followed. -/
def Stuck (context : Context) (active : List String) (node : Node) : Prop :=
  ∀ active', active ⊆ active' → ∀ depth h type h',
    bodyAt context depth active' node h ≠ .done type h'

/-- A way of at most so many steps leads to a stuck schema. -/
inductive Near (context : Context) (active : List String) : Nat → Node → Prop where
  | here {distance : Nat} {node : Node} (h : Stuck context active node) :
      Near context active distance node
  | step {distance : Nat} {node child : Node} (hl : LeadsTo context node child)
      (h : Near context active distance child) : Near context active (distance + 1) node

theorem Near.succ {distance : Nat} (h : Near context active distance node) :
    Near context active (distance + 1) node := by
  induction h with
  | here h => exact .here h
  | step hl _ ih => exact .step hl ih

theorem exists_near (hr : Reaches context node child) (h : Stuck context active child) :
    ∃ distance, Near context active distance node := by
  induction hr using ReflTransGen.head_induction_on with
  | refl => exact ⟨0, .here h⟩
  | head hl _ ih =>
    obtain ⟨distance, hnear⟩ := ih
    exact ⟨distance + 1, .step hl hnear⟩

/-- No schema near a stuck one has a name. -/
def Fresh (context : Context) (active : List String) (distance : Nat) (h : Hoisted) : Prop :=
  ∀ node, node.InDocument context.document → Near context active distance node →
    nameAt h node.path = none

/-- What holds of a run from a state where no schema near a stuck one has a name. -/
def Keeps (context : Context) (active : List String) (depth : Nat) : Prop :=
  ∀ active' node h type h' distance, active ⊆ active' → node.InDocument context.document →
    Fresh context active distance h → typeAt context depth active' node h = .done type h' →
    Fresh context active distance h' ∧ ¬Near context active distance node

section Keeps

variable {depth distance : Nat} {active' : List String} {h h' : Hoisted} {type : TypeExpr}

/-- The keywords of a schema do not lead to a schema near a stuck one. -/
theorem Keeps.bodyAt (ih : Keeps context active depth) (hd : context.document.Distinct)
    (ha : active ⊆ active') (hn : node.InDocument context.document)
    (hf : Fresh context active distance h)
    (hr : bodyAt context depth active' node h = .done type h') :
    Fresh context active distance h' ∧
      ∀ child, LeadsTo context node child → ¬Near context active distance child := by
  obtain ⟨hf', hdone⟩ := bodyAt_done (Fresh context active distance)
    (fun child active'' _ _ _ hl hsub hf hr =>
      (ih active'' child _ _ _ _ (List.Subset.trans ha hsub) (hl.inDocument hd hn) hf hr).1) hf hr
  refine ⟨hf', fun child hl => ?_⟩
  obtain ⟨active'', _, _, _, hsub, hf₁, hr⟩ := hdone child hl
  exact (ih active'' child _ _ _ _ (List.Subset.trans ha hsub) (hl.inDocument hd hn) hf₁ hr).2

/-- Such a schema is not near a stuck one itself, nor was it nearer. -/
theorem Keeps.not_near (ih : Keeps context active depth) (hd : context.document.Distinct)
    (ha : active ⊆ active') (hn : node.InDocument context.document)
    (hr : Schema.bodyAt context depth active' node h = .done type h')
    (hf : ∀ less < distance, Fresh context active less h) :
    ¬Near context active distance node := by
  intro hnear
  cases hnear with
  | here hstuck => exact hstuck active' ha _ _ _ _ hr
  | @step less _ child hl hnear =>
    exact (ih.bodyAt hd ha hn (hf less (Nat.lt_succ_self less)) hr).2 child hl hnear

theorem Near.mono {less : Nat} (hle : less ≤ distance) (h : Near context active less node) :
    Near context active distance node := by
  induction hle with
  | refl => exact h
  | step _ ih => exact ih.succ

theorem Fresh.mono {less : Nat} (hle : less ≤ distance) (hf : Fresh context active distance h) :
    Fresh context active less h :=
  fun node hn hnear => hf node hn (hnear.mono hle)

/-- A schema at its least distance gets a name, and the nearer ones still have none. -/
theorem Fresh.withName (hf : Fresh context active distance h)
    (hn : node.InDocument context.document) (hnot : ¬Near context active distance node)
    (name : String) : Fresh context active distance (withName h node.path name) := by
  intro other hother hnear
  rw [nameAt_withName, if_neg]
  · exact hf other hother hnear
  · intro hpath
    cases hother.ext hn hpath
    exact hnot hnear

theorem keeps (hd : context.document.Distinct) (active : List String) (depth : Nat) :
    Keeps context active depth := by
  induction depth with
  | zero =>
    intro active' node h type h' distance _ _ _ hr
    cases hr
  | succ depth ih =>
    intro active' node h type h' distance ha hn hf hr
    cases doneAt_of_typeAt context depth active' hr with
    | untitled ht hr =>
      exact ⟨(ih.bodyAt hd ha hn hf hr).1, ih.not_near hd ha hn hr fun less hlt => hf.mono hlt.le⟩
    | named ht hname =>
      refine ⟨hf, fun hnear => ?_⟩
      rw [hf node hn hnear] at hname
      cases hname
    | declared ht hname hbody =>
      -- At no distance is the schema near, since it would be nearest at the least one.
      have hnot : ∀ less ≤ distance, ¬Near context active less node := by
        intro less
        induction less using Nat.strong_induction_on with
        | _ less hless =>
          intro hle
          refine ih.not_near hd ha hn hbody fun lesser hlt => ?_
          exact (hf.mono (hlt.le.trans hle)).withName hn (hless lesser hlt (hlt.le.trans hle)) _
      have hnot := hnot distance le_rfl
      exact ⟨(ih.bodyAt hd ha hn (hf.withName hn hnot _) hbody).1, hnot⟩

/-- From a state without names, what leads to a stuck schema is not done. -/
theorem bodyAt_not_done (hd : context.document.Distinct) (hn : node.InDocument context.document)
    (hr : Reaches context node child) (hs : Stuck context active child) (ha : active ⊆ active')
    (hnames : h.names = []) : bodyAt context depth active' node h ≠ .done type h' := by
  intro hdone
  have hfresh : ∀ distance, Fresh context active distance h := by
    intro distance other _ _
    simp [nameAt, hnames]
  obtain ⟨distance, hnear⟩ := exists_near hr hs
  exact (keeps hd active depth).not_near hd ha hn hdone (fun less _ => hfresh less) hnear

end Keeps

/-! ## Stuck schemas -/

theorem OnUntitledCycle.next (h : OnUntitledCycle context node) :
    ∃ child, LeadsTo context node child ∧ child.title? = none ∧ OnUntitledCycle context child := by
  obtain ⟨child, hstep, hback⟩ := TransGen.head'_iff.1 h
  exact ⟨child, hstep.1, hstep.2, .tail' hback hstep⟩

/-- A way that never ends is never worked out. -/
theorem OnUntitledCycle.stuck (hc : OnUntitledCycle context node) : Stuck context [] node := by
  -- Each step to an untitled schema costs depth, whatever the state and the references.
  intro active _ depth
  induction depth generalizing node active with
  | zero =>
    intro h type h' hr
    obtain ⟨child, hl, -, -⟩ := hc.next
    obtain ⟨_, _, _, _, -, -, hdone⟩ :=
      (bodyAt_done (fun _ => True) (fun _ _ _ _ _ _ _ _ _ => trivial) trivial hr).2 child hl
    cases hdone
  | succ depth ih =>
    intro h type h' hr
    obtain ⟨child, hl, htitle, hc⟩ := hc.next
    obtain ⟨active', _, _, _, -, -, hdone⟩ :=
      (bodyAt_done (fun _ => True) (fun _ _ _ _ _ _ _ _ _ => trivial) trivial hr).2 child hl
    rw [typeAt_untitled _ _ _ htitle] at hdone
    exact ih hc active' (List.nil_subset _) _ _ _ hdone

/-- A reference to an untitled schema is not followed twice at a time. -/
theorem stuck_of_active {reference : String} (hr : .referred reference ∈ demands node)
    (ht : target context reference = .ok (.node child)) (hu : child.title? = none) :
    Stuck context [reference] node := by
  intro active ha depth h type h' hdone
  obtain ⟨_, hmet⟩ := (meets_typeOfSchema context node).done (fun _ => True)
    (fun _ _ _ _ _ _ _ => trivial) trivial hdone
  obtain ⟨h₁, _, _, -, hdone⟩ := hmet _ hr
  have hdone : referredType context (typeAt context depth) active reference h₁ = .done _ _ := hdone
  rw [referredType_active _ ht hu (ha (List.mem_singleton_self _))] at hdone
  cases hdone

/-! ## Ways without titles -/

/-- What a schema asks for first is the type of the untitled schema. -/
def OpensWith (context : Context) (node child : Node) : Prop :=
  child.title? = none ∧ ∃ demand rest, demands node = demand :: rest ∧
    demand.LeadsTo context child

/-- A schema that opens with one that is not done is not done. -/
theorem OpensWith.not_done (ho : OpensWith context node child) {h : Hoisted}
    (hc : ∀ active depth type h', bodyAt context depth active child h ≠ .done type h')
    (active : List String) (depth : Nat) (type : TypeExpr) (h' : Hoisted) :
    bodyAt context depth active node h ≠ .done type h' := by
  intro hr
  obtain ⟨hu, demand, rest, hdemands, hleads⟩ := ho
  obtain ⟨type₁, h₁, hmet⟩ := (meets_typeOfSchema context node).first hdemands hr
  obtain ⟨active', -, hdone⟩ := hleads.done hmet
  cases depth with
  | zero => cases hdone
  | succ depth =>
    rw [typeAt_untitled _ _ _ hu] at hdone
    exact hc active' depth _ _ hdone

/-- A schema is not done that refers to an untitled one from which a way leads back to the
reference. -/
theorem OnCycle.not_done (hd : context.document.Distinct) {reference : String}
    (hr : .referred reference ∈ demands node) (hc : OnCycle context node reference) {h : Hoisted}
    (hnames : h.names = []) (active : List String) (depth : Nat) (type : TypeExpr) (h' : Hoisted) :
    bodyAt context depth active node h ≠ .done type h' := by
  intro hdone
  obtain ⟨parent, child, -, hparent, ht, hu, hback⟩ := hc
  obtain ⟨type₁, h₁, hmet⟩ := (meets_typeOfSchema context node).first (demands_of_referred hr) hdone
  have hmet : referredType context (typeAt context depth) active reference h = .done type₁ h₁ :=
    hmet
  by_cases ha : reference ∈ active
  · rw [referredType_active _ ht hu ha] at hmet
    cases hmet
  rw [referredType_followed _ ht hu ha] at hmet
  cases depth with
  | zero => cases hmet
  | succ depth =>
    -- From here on the reference is being followed, and the way leads back to it.
    rw [typeAt_untitled _ _ _ hu] at hmet
    obtain ⟨pointer, -, hresolve⟩ := target_node ht
    refine bodyAt_not_done hd (Pointer.resolve?_inDocument hresolve) hback
      (stuck_of_active hparent ht hu) ?_ hnames hmet
    exact List.cons_subset_cons reference (List.nil_subset active)

/-! ## Documents -/

section Documents

variable {document : Json} {name : String} {style : Style}

theorem declarations_error (hn : ∀ type h', typeOfDocument ⟨document, name, style⟩
      (depthBound document) { taken := [name] } ≠ .done type h') :
    ∃ problem, Schema.declarations document name style = .error problem ∧
      ∀ reason, problem ≠ .rejected reason := by
  rcases declarations_ok_or_blamed document name style with
    ⟨declarations, hok⟩ | ⟨problem, herror, hblamed⟩
  · unfold Schema.declarations at hok
    split at hok
    · rename_i type hoisted hrun
      exact absurd hrun (hn type hoisted)
    · cases hok
    · cases hok
  · exact ⟨problem, herror, hblamed.ne_rejected⟩

/-- Which cycles are refused. The reference that is blamed for one leads to an untitled schema and
from there back to itself. A document that leads to a cycle without titles is refused. And it is
refused if, before any title is met, it comes to a reference to an untitled schema from which a way
leads back, whatever titles are on that way. -/
theorem declarations_cycles (hd : document.Distinct) (name : String) (style : Style) :
    (∀ reference, Schema.declarations document name style = .error (.untitledCycle reference) →
      OnCycle ⟨document, name, style⟩ (.root document) reference) ∧
    (∀ node, Reaches ⟨document, name, style⟩ (.root document) node →
      OnUntitledCycle ⟨document, name, style⟩ node →
      ∃ problem, Schema.declarations document name style = .error problem ∧
        ∀ reason, problem ≠ .rejected reason) ∧
    ∀ node reference, ReflTransGen (OpensWith ⟨document, name, style⟩) (.root document) node →
      .referred reference ∈ demands node → OnCycle ⟨document, name, style⟩ node reference →
      ∃ problem, Schema.declarations document name style = .error problem ∧
        ∀ reason, problem ≠ .rejected reason := by
  refine ⟨fun reference herror => ?blamed, fun node hreaches hcycle => ?untitled,
    fun node reference hopens hr hcycle => ?entered⟩
  case blamed =>
    rcases declarations_ok_or_blamed document name style with
      ⟨declarations, hok⟩ | ⟨problem, herror', hblamed⟩
    · rw [hok] at herror
      cases herror
    · rw [herror] at herror'
      cases herror'
      exact hblamed.onCycle (List.forall_mem_nil _) rfl
  case untitled =>
    refine declarations_error fun type h' hdone => ?_
    exact bodyAt_not_done hd (Node.root_inDocument document) hreaches hcycle.stuck
      (List.Subset.refl _) rfl hdone
  case entered =>
    refine declarations_error ?_
    have hstart : ∀ active depth type h', bodyAt ⟨document, name, style⟩ depth active
        (.root document) { taken := [name] } ≠ .done type h' := by
      generalize Node.root document = start at hopens
      induction hopens using ReflTransGen.head_induction_on with
      | refl => exact hcycle.not_done hd hr rfl
      | head ho _ ih => exact ho.not_done ih
    exact hstart [] (depthBound document)

end Documents

/-! ## A ring of two schemas -/

/-- Two schemas that refer to each other, the second one under a title, and a reference to one. -/
def ring (entry : String) : Json :=
  .object
    [("$defs", .object
      [("a", .object [("items", .object [("$ref", .string "#/$defs/n")])]),
        ("n", .object
          [("title", .string "N"), ("items", .object [("$ref", .string "#/$defs/a")])])]),
      ("$ref", .string entry)]

/-- The ring that is entered by its untitled schema. -/
def untitledRing : Context := ⟨ring "#/$defs/a", "Schema0", {}⟩

/-- The schemas on the way through the ring, from the document on. -/
def ringNode : Nat → Node
  | 0 => .root (ring "#/$defs/a")
  | 1 => ⟨[.field "$defs", .field "a"],
      .object [("items", .object [("$ref", .string "#/$defs/n")])]⟩
  | 2 => ⟨[.field "$defs", .field "a", .field "items"], .object [("$ref", .string "#/$defs/n")]⟩
  | 3 => ⟨[.field "$defs", .field "n"],
      .object [("title", .string "N"), ("items", .object [("$ref", .string "#/$defs/a")])]⟩
  | _ => ⟨[.field "$defs", .field "n", .field "items"], .object [("$ref", .string "#/$defs/a")]⟩

/-- The place on the way that follows a place. -/
def nextOnRing : Nat → Nat
  | 0 => 1
  | 1 => 2
  | 2 => 3
  | 3 => 4
  | _ => 1

/-- What each schema of the ring asks for. -/
def ringDemand : Nat → Demand
  | 0 => .referred "#/$defs/a"
  | 1 => .inner (ringNode 2)
  | 2 => .referred "#/$defs/n"
  | 3 => .inner (ringNode 4)
  | _ => .referred "#/$defs/a"

theorem demands_ringNode (place : Nat) : demands (ringNode place) = [ringDemand place] := by
  match place with
  | 0 | 1 | 2 | 3 | _ + 4 => rfl

theorem ringDemand_leadsTo (place : Nat) :
    (ringDemand place).LeadsTo untitledRing (ringNode (nextOnRing place)) := by
  match place with
  | 0 | 2 | _ + 4 => exact .referred rfl
  | 1 | 3 => exact .inner _

theorem Demand.LeadsTo.unique {demand : Demand} {other : Node} (h : demand.LeadsTo context node)
    (h' : demand.LeadsTo context other) : node = other := by
  cases h with
  | inner =>
    cases h'
    rfl
  | referred ht =>
    cases h' with
    | referred ht' =>
      rw [ht] at ht'
      cases ht'
      rfl

theorem leadsTo_ringNode (place : Nat) :
    LeadsTo untitledRing (ringNode place) child ↔ child = ringNode (nextOnRing place) := by
  unfold LeadsTo
  rw [demands_ringNode]
  constructor
  · rintro ⟨demand, hmem, hleads⟩
    cases List.mem_singleton.1 hmem
    exact hleads.unique (ringDemand_leadsTo place)
  · rintro rfl
    exact ⟨_, List.mem_singleton_self _, ringDemand_leadsTo place⟩

/-- Every way along the ring comes to the titled schema. -/
theorem ringNode_not_onUntitledCycle (place : Nat) :
    ¬OnUntitledCycle untitledRing (ringNode place) := by
  have hnext : ∀ place, OnUntitledCycle untitledRing (ringNode place) →
      (ringNode (nextOnRing place)).title? = none ∧
        OnUntitledCycle untitledRing (ringNode (nextOnRing place)) := by
    intro place hcycle
    obtain ⟨child, hl, htitle, hcycle⟩ := hcycle.next
    rw [(leadsTo_ringNode place).1 hl] at htitle hcycle
    exact ⟨htitle, hcycle⟩
  have hsecond : ¬OnUntitledCycle untitledRing (ringNode 2) := fun h => by cases (hnext 2 h).1
  have hfirst : ¬OnUntitledCycle untitledRing (ringNode 1) := fun h => hsecond (hnext 1 h).2
  match place with
  | 0 => exact fun h => hfirst (hnext 0 h).2
  | 1 => exact hfirst
  | 2 => exact hsecond
  | 3 => exact fun h => hfirst (hnext 4 (hnext 3 h).2).2
  | place + 4 => exact fun h => hfirst (hnext (place + 4) h).2

/-- The reference for which a run was refused because it leads round without a title. -/
def untitledReference? : Except SchemaProblem Declarations → Option String
  | .error (.untitledCycle reference) => some reference
  | _ => none

theorem of_untitledReference? {outcome : Except SchemaProblem Declarations} {reference : String}
    (h : untitledReference? outcome = some reference) :
    outcome = .error (.untitledCycle reference) := by
  unfold untitledReference? at h
  split at h
  · cases h
    rfl
  · cases h

/-- A cycle that goes by references to a titled schema and to an untitled one: there is no cycle
without titles, and yet it is refused if the untitled schema is entered first. It is not refused if
the titled one is. -/
theorem declarations_untitledRing :
    (∀ node, Reaches untitledRing (.root (ring "#/$defs/a")) node →
      ¬OnUntitledCycle untitledRing node) ∧
    Schema.declarations (ring "#/$defs/a") "Schema0" {} = .error (.untitledCycle "#/$defs/a") ∧
    ∃ declarations, Schema.declarations (ring "#/$defs/n") "Schema0" {} = .ok declarations := by
  refine ⟨fun node hreaches => ?titled, ?refused, ?accepted⟩
  case titled =>
    have hplace : ∃ place, node = ringNode place := by
      induction hreaches with
      | refl => exact ⟨0, rfl⟩
      | tail _ hl ih =>
        obtain ⟨place, rfl⟩ := ih
        exact ⟨nextOnRing place, (leadsTo_ringNode place).1 hl⟩
    obtain ⟨place, rfl⟩ := hplace
    exact ringNode_not_onUntitledCycle place
  case refused => exact of_untitledReference? (by decide +kernel)
  case accepted =>
    have hcheck : (Schema.declarations (ring "#/$defs/n") "Schema0" {}).isOk = true := by
      decide +kernel
    cases hrun : Schema.declarations (ring "#/$defs/n") "Schema0" {} with
    | ok declarations => exact ⟨declarations, rfl⟩
    | error problem =>
      rw [hrun] at hcheck
      cases hcheck

/-- The way from the untitled schema of the ring back to the reference passes the title. -/
theorem declarations_cycles_ring :
    (ring "#/$defs/a").Distinct ∧
      ∃ problem, Schema.declarations (ring "#/$defs/a") "Schema0" {} = .error problem ∧
        ∀ reason, problem ≠ .rejected reason := by
  have hdistinct : (ring "#/$defs/a").Distinct := by simp [ring]
  have hstep : ∀ place, LeadsTo untitledRing (ringNode place) (ringNode (nextOnRing place)) :=
    fun place => (leadsTo_ringNode place).2 rfl
  have hback : Reaches untitledRing (ringNode 1) (ringNode 4) :=
    .head (hstep 1) (.head (hstep 2) (.single (hstep 3)))
  have hr : ∀ place, ringDemand place = .referred "#/$defs/a" →
      .referred "#/$defs/a" ∈ demands (ringNode place) := by
    intro place hdemand
    rw [demands_ringNode, hdemand]
    exact List.mem_singleton_self _
  have hcycle : OnCycle untitledRing (ringNode 0) "#/$defs/a" :=
    ⟨ringNode 4, ringNode 1, hback.head (hstep 0), hr 4 rfl, rfl, rfl, hback⟩
  exact ⟨hdistinct, (declarations_cycles hdistinct "Schema0" {}).2.2 _ _ .refl (hr 0 rfl) hcycle⟩

end LintTypes.Schema
