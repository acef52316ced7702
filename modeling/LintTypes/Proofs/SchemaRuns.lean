import LintTypes.Proofs.Demands

/-!
# Runs

What working out a type does, step by step: a run that is done has met every demand, and one that
fails was failed by a demand. A schema at its place is its keywords, its name, or its name and then
its keywords, as it has no title, has been named before, or is met for the first time.

`Blamed` follows a failure down to the schema that is its reason.
-/

namespace LintTypes.Schema

open Hoisting

/-! ## Runs -/

/-- A computation fails by its first part or by what follows. -/
theorem bind_failed {α β : Type} {x : Hoisting α} {f : α → Hoisting β} {h : Hoisted}
    {problem : SchemaProblem} (hr : (x >>= f) h = .failed problem) :
    x h = .failed problem ∨ ∃ a h₁, x h = .done a h₁ ∧ f a h₁ = .failed problem := by
  rw [bind_apply] at hr
  split at hr
  · rename_i a h₁ hx
    exact .inr ⟨a, h₁, hx, hr⟩
  · rename_i hx
    cases hr
    exact .inl hx
  · cases hr

section Runs

variable {α : Type} {asked : List Demand} {x : Asking α} {typeOf : Node → Hoisting TypeExpr}
  {follow : String → Hoisting TypeExpr}

/-- A failure is that of a demand. -/
theorem Meets.failed (hx : Meets asked x) {h : Hoisted} {problem : SchemaProblem}
    (hr : x typeOf follow h = .failed problem) :
    ∃ demand ∈ asked, ∃ h₁, demand.meet typeOf follow h₁ = .failed problem := by
  induction hx generalizing h with
  | pure value => cases hr
  | refused problem rest =>
    cases hr
    exact ⟨_, List.mem_cons_self .., h, rfl⟩
  | next demand _ ih =>
    rcases bind_failed hr with hfailed | ⟨type, h₁, -, hr⟩
    · exact ⟨demand, List.mem_cons_self .., h, hfailed⟩
    · obtain ⟨other, hmem, h₂, hother⟩ := ih type hr
      exact ⟨other, List.mem_cons_of_mem _ hmem, h₂, hother⟩

/-- A computation that is done has met all demands. If it ends early it began early, and what its
demands keep of the state as long as they end early it keeps. -/
theorem Meets.between (early good : Hoisted → Prop) (hx : Meets asked x)
    (hback : ∀ demand ∈ asked, ∀ h type h', demand.meet typeOf follow h = .done type h' →
      early h' → early h)
    (hkept : ∀ demand ∈ asked, ∀ h type h', good h →
      demand.meet typeOf follow h = .done type h' → early h' → good h')
    {h h' : Hoisted} {a : α} (hr : x typeOf follow h = .done a h') (he : early h') :
    early h ∧ (good h → good h' ∧ ∀ demand ∈ asked, ∃ h₁ type h₂, good h₁ ∧ early h₂ ∧
      demand.meet typeOf follow h₁ = .done type h₂) := by
  induction hx generalizing h with
  | pure value =>
    cases hr
    exact ⟨he, fun hg => ⟨hg, by simp⟩⟩
  | refused problem rest => cases hr
  | next demand _ ih =>
    obtain ⟨hfirst, hbefore⟩ := List.forall_mem_cons.1 hback
    obtain ⟨hfirstKept, hrestKept⟩ := List.forall_mem_cons.1 hkept
    obtain ⟨type, h₁, hdemand, hr⟩ := bind_done hr
    obtain ⟨he₁, hrest⟩ := ih type hbefore hrestKept hr
    refine ⟨hfirst h type h₁ hdemand he₁, fun hg => ?_⟩
    obtain ⟨hg', hothers⟩ := hrest (hfirstKept h type h₁ hg hdemand he₁)
    exact ⟨hg', List.forall_mem_cons.2 ⟨⟨h, type, h₁, hg, he₁, hdemand⟩, hothers⟩⟩

/-- A computation that is done has met all demands, and what they keep of the state it keeps. -/
theorem Meets.done (good : Hoisted → Prop) (hx : Meets asked x)
    (hkept : ∀ demand ∈ asked, ∀ h type h', good h →
      demand.meet typeOf follow h = .done type h' → good h')
    {h h' : Hoisted} {a : α} (hg : good h) (hr : x typeOf follow h = .done a h') :
    good h' ∧ ∀ demand ∈ asked, ∃ h₁ type h₂, good h₁ ∧
      demand.meet typeOf follow h₁ = .done type h₂ := by
  obtain ⟨hg', hmet⟩ := (hx.between (fun _ => True) good (fun _ _ _ _ _ _ _ => trivial)
    (fun demand hd h type h' hg hr _ => hkept demand hd h type h' hg hr) hr trivial).2 hg
  refine ⟨hg', fun demand hd => ?_⟩
  obtain ⟨h₁, type, h₂, hg₁, -, hdone⟩ := hmet demand hd
  exact ⟨h₁, type, h₂, hg₁, hdone⟩

/-- The first demand is met first. -/
theorem Meets.first {demand : Demand} {rest : List Demand} (hx : Meets asked x)
    (ha : asked = demand :: rest) {h h' : Hoisted} {a : α}
    (hr : x typeOf follow h = .done a h') :
    ∃ type h₁, demand.meet typeOf follow h = .done type h₁ := by
  cases hx with
  | pure value => cases ha
  | refused problem rest => cases hr
  | next demand _ =>
    cases ha
    obtain ⟨type, h₁, hdemand, -⟩ := bind_done hr
    exact ⟨type, h₁, hdemand⟩

end Runs

/-! ## Schemas at their places -/

attribute [grind =] referredType typeAt

section References

variable {context : Context} (typeAt : List String → Node → Hoisting TypeExpr)
  (active : List String) {reference : String} {node : Node}

theorem referredType_targetless {problem : SchemaProblem}
    (ht : target context reference = .error problem) :
    referredType context typeAt active reference = .fail problem := by
  rw [referredType, ht]

theorem referredType_document (ht : target context reference = .ok .document) :
    referredType context typeAt active reference = pure (.named context.name) := by
  rw [referredType, ht]

theorem referredType_titled (ht : target context reference = .ok (.node node)) {title : String}
    (htitle : node.title? = some title) :
    referredType context typeAt active reference = typeAt active node := by
  simp [referredType, ht, htitle]

variable {active}

theorem referredType_active (ht : target context reference = .ok (.node node))
    (htitle : node.title? = none) (ha : reference ∈ active) :
    referredType context typeAt active reference = .fail (.untitledCycle reference) := by
  simp [referredType, ht, htitle, ha]

theorem referredType_followed (ht : target context reference = .ok (.node node))
    (htitle : node.title? = none) (ha : reference ∉ active) :
    referredType context typeAt active reference = typeAt (reference :: active) node := by
  simp [referredType, ht, htitle, ha]

/-- What becomes of a reference while others are being followed. -/
inductive Referral (context : Context) (active : List String) (reference : String) : Prop where
  /-- It has no target. -/
  | targetless {problem : SchemaProblem} (ht : target context reference = .error problem)
      (hr : ∀ typeAt, referredType context typeAt active reference = .fail problem)
  /-- It stands for the document. -/
  | document (ht : target context reference = .ok .document)
      (hr : ∀ typeAt, referredType context typeAt active reference = pure (.named context.name))
  /-- It leads to a titled schema, which has a type of its own. -/
  | titled {node : Node} {title : String} (ht : target context reference = .ok (.node node))
      (htitle : node.title? = some title)
      (hr : ∀ typeAt, referredType context typeAt active reference = typeAt active node)
  /-- It is met again while it is being followed. -/
  | again {node : Node} (ht : target context reference = .ok (.node node))
      (hu : node.title? = none) (ha : reference ∈ active)
      (hr : ∀ typeAt,
        referredType context typeAt active reference = .fail (.untitledCycle reference))
  /-- It is followed to an untitled schema. -/
  | followed {node : Node} (ht : target context reference = .ok (.node node))
      (hu : node.title? = none) (ha : reference ∉ active)
      (hr : ∀ typeAt,
        referredType context typeAt active reference = typeAt (reference :: active) node)

theorem referral (context : Context) (active : List String) (reference : String) :
    Referral context active reference := by
  cases ht : target context reference with
  | error problem => exact .targetless ht fun _ => referredType_targetless _ _ ht
  | ok leads =>
    cases leads with
    | document => exact .document ht fun _ => referredType_document _ _ ht
    | node node =>
      cases htitle : node.title? with
      | some title => exact .titled ht htitle fun _ => referredType_titled _ _ ht htitle
      | none =>
        by_cases ha : reference ∈ active
        · exact .again ht htitle ha fun _ => referredType_active _ ht htitle ha
        · exact .followed ht htitle ha fun _ => referredType_followed _ ht htitle ha

end References

section Places

variable (context : Context) (depth : Nat) (active : List String) {node : Node}

/-- What the keywords of a schema make, its title aside. -/
def bodyAt (node : Node) : Hoisting TypeExpr :=
  typeOfSchema context (typeAt context depth active) (referredType context (typeAt context depth)
    active) node

theorem typeAt_untitled (ht : node.title? = none) :
    typeAt context (depth + 1) active node = bodyAt context depth active node := by
  rw [typeAt]
  simp only [ht]
  rfl

theorem typeAt_named {h : Hoisted} {title name : String} (ht : node.title? = some title)
    (hname : nameAt h node.path = some name) :
    typeAt context (depth + 1) active node h = .done (.named name) h := by
  have hlookup : h.names.lookup node.path = some name := hname
  rw [typeAt]
  simp only [ht, bind_apply, nameOf?, hlookup]
  rfl

/-- The name that a schema with the title gets. -/
def newName (h : Hoisted) (title : String) : String :=
  Names.unusedName h.taken (Names.titleIdentifier title)

/-- A titled schema that is met for the first time gets its name before its keywords count. -/
theorem typeAt_unnamed {h : Hoisted} {title : String} (ht : node.title? = some title)
    (hnone : nameAt h node.path = none) :
    typeAt context (depth + 1) active node h =
      match bodyAt context depth active node (withName h node.path (newName h title)) with
      | .done type h₁ =>
        .done (.named (newName h title))
          (withDeclaration h₁ (.ofType (newName h title) type (comment? node.value)))
      | .failed problem => .failed problem
      | .tooDeep => .tooDeep := by
  have hlookup : h.names.lookup node.path = none := hnone
  rw [typeAt]
  simp only [ht, bind_apply, nameOf?, hlookup, giveName]
  unfold bodyAt withName newName
  generalize typeOfSchema _ _ _ _ _ = outcome
  cases outcome <;> rfl

/-- How a run on a schema at its place comes to be done: by its keywords if it has no title, by the
name that it has, or by its keywords once it has been given a name. -/
inductive DoneAt (h : Hoisted) : TypeExpr → Hoisted → Prop where
  | untitled {type : TypeExpr} {h' : Hoisted} (ht : node.title? = none)
      (hr : bodyAt context depth active node h = .done type h') : DoneAt h type h'
  | named {title name : String} (ht : node.title? = some title)
      (hname : nameAt h node.path = some name) : DoneAt h (.named name) h
  | declared {title : String} {type : TypeExpr} {h₁ : Hoisted} (ht : node.title? = some title)
      (hnone : nameAt h node.path = none)
      (hr : bodyAt context depth active node (withName h node.path (newName h title)) =
        .done type h₁) :
      DoneAt h (.named (newName h title))
        (withDeclaration h₁ (.ofType (newName h title) type (comment? node.value)))

theorem doneAt_of_typeAt {h h' : Hoisted} {type : TypeExpr}
    (hr : typeAt context (depth + 1) active node h = .done type h') :
    @DoneAt context depth active node h type h' := by
  cases ht : node.title? with
  | none =>
    rw [typeAt_untitled _ _ _ ht] at hr
    exact .untitled ht hr
  | some title =>
    cases hname : nameAt h node.path with
    | some name =>
      rw [typeAt_named _ _ _ ht hname] at hr
      cases hr
      exact .named ht hname
    | none =>
      rw [typeAt_unnamed _ _ _ ht hname] at hr
      split at hr
      · rename_i type₁ h₁ hbody
        cases hr
        exact .declared ht hname hbody
      · cases hr
      · cases hr

end Places

/-! ## Failures -/

/-- Why a schema has no type while the references `active` are being followed: its own problem, a
reference without a target or one that is being followed already, or else a schema on the way. -/
inductive Blamed (context : Context) : List String → Node → SchemaProblem → Prop where
  | refused {active : List String} {node : Node} {problem : SchemaProblem}
      (h : .refused problem ∈ demands node) : Blamed context active node problem
  | targetless {active : List String} {node : Node} {reference : String} {problem : SchemaProblem}
      (h : .referred reference ∈ demands node) (ht : target context reference = .error problem) :
      Blamed context active node problem
  | cycle {active : List String} {node child : Node} {reference : String}
      (h : .referred reference ∈ demands node)
      (ht : target context reference = .ok (.node child)) (hu : child.title? = none)
      (ha : reference ∈ active) : Blamed context active node (.untitledCycle reference)
  | inner {active : List String} {node child : Node} {problem : SchemaProblem}
      (h : .inner child ∈ demands node) (hb : Blamed context active child problem) :
      Blamed context active node problem
  | titled {active : List String} {node child : Node} {reference : String}
      {problem : SchemaProblem} (h : .referred reference ∈ demands node)
      (ht : target context reference = .ok (.node child))
      (hb : Blamed context active child problem) : Blamed context active node problem
  | followed {active : List String} {node child : Node} {reference : String}
      {problem : SchemaProblem} (h : .referred reference ∈ demands node)
      (ht : target context reference = .ok (.node child))
      (hb : Blamed context (reference :: active) child problem) :
      Blamed context active node problem

section Failures

variable {context : Context} {depth : Nat} {active : List String} {node : Node} {h : Hoisted}
  {problem : SchemaProblem}

/-- The keywords of a schema are to blame if the schemas on the way are. -/
theorem blamed_of_bodyAt_failed
    (ih : ∀ active node h, typeAt context depth active node h = .failed problem →
      Blamed context active node problem)
    (hr : bodyAt context depth active node h = .failed problem) :
    Blamed context active node problem := by
  obtain ⟨demand, hmem, h₁, hfailed⟩ := (meets_typeOfSchema context node).failed hr
  cases demand with
  | inner child => exact .inner hmem (ih _ _ _ hfailed)
  | refused other =>
    cases hfailed
    exact .refused hmem
  | referred reference =>
    have hfailed : referredType context (typeAt context depth) active reference h₁ =
        .failed problem := hfailed
    cases referral context active reference with
    | targetless ht hr =>
      rw [hr] at hfailed
      cases hfailed
      exact .targetless hmem ht
    | document _ hr =>
      rw [hr] at hfailed
      cases hfailed
    | titled ht _ hr =>
      rw [hr] at hfailed
      exact .titled hmem ht (ih _ _ _ hfailed)
    | again ht hu ha hr =>
      rw [hr] at hfailed
      cases hfailed
      exact .cycle hmem ht hu ha
    | followed ht _ _ hr =>
      rw [hr] at hfailed
      exact .followed hmem ht (ih _ _ _ hfailed)

theorem blamed_of_typeAt_failed (hr : typeAt context depth active node h = .failed problem) :
    Blamed context active node problem := by
  induction depth generalizing active node h with
  | zero => cases hr
  | succ depth ih =>
    cases ht : node.title? with
    | none =>
      rw [typeAt_untitled _ _ _ ht] at hr
      exact blamed_of_bodyAt_failed (fun _ _ _ => ih) hr
    | some title =>
      cases hname : nameAt h node.path with
      | some name =>
        rw [typeAt_named _ _ _ ht hname] at hr
        cases hr
      | none =>
        rw [typeAt_unnamed _ _ _ ht hname] at hr
        cases hbody : bodyAt context depth active node
            (withName h node.path (newName h title)) with
        | failed other =>
          rw [hbody] at hr
          cases hr
          exact blamed_of_bodyAt_failed (fun _ _ _ => ih) hbody
        | _ =>
          rw [hbody] at hr
          cases hr

/-- A reference without a target is a problem of its own. -/
theorem isOwn_of_target {reference : String} (ht : target context reference = .error problem) :
    problem.IsOwn := by
  unfold target at ht
  split at ht
  · cases ht
  · split at ht
    · cases ht
    · cases ht
      trivial
  · cases ht
    trivial

/-- What is refused is refused for a problem of its own. -/
theorem isOwn_of_refused (h : .refused problem ∈ demands node) : problem.IsOwn := by
  cases ofNode_of_mem_demands h with
  | refused h => exact h

/-- Schemas are never rejected in the words of another declarer. -/
theorem Blamed.ne_rejected (hb : Blamed context active node problem) (reason : String) :
    problem ≠ .rejected reason := by
  induction hb with
  | refused h =>
    rintro rfl
    exact isOwn_of_refused h
  | targetless _ ht =>
    rintro rfl
    exact isOwn_of_target ht
  | cycle => exact nofun
  | inner _ _ ih => exact ih
  | titled _ _ _ ih => exact ih
  | followed _ _ _ ih => exact ih

end Failures

end LintTypes.Schema
