import LintTypes.Proofs.DepthBound
import LintTypes.Proofs.SchemaPairs

/-!
# Runs in step

Two documents whose schemas say the same at the same places are worked out in step: at each moment
the same places have the same names, and the same names are declared, as far as the types that are
declared may differ at all. So the two runs are both done or both fail, and if they are done the
declarations correspond to each other in order.

`InStep` says this of two computations. It is kept when computations are composed, and so it is
enough that each two schemas meet corresponding demands (`MeetBoth.inStep`); the induction is on the
depth, which is the same for both.
-/

namespace LintTypes.Schema

open Hoisting

/-! ## Outcomes -/

section Outcomes

variable {α β γ δ : Type}

/-- Both computations are done, with related values and states, or both fail, or neither depth
sufficed. -/
inductive Alongside (result : α → β → Prop) (states : Hoisted → Hoisted → Prop) :
    Outcome α → Outcome β → Prop where
  | done {a : α} {b : β} {h h' : Hoisted} (hr : result a b) (hs : states h h') :
      Alongside result states (.done a h) (.done b h')
  | failed (problem problem' : SchemaProblem) :
      Alongside result states (.failed problem) (.failed problem')
  | tooDeep : Alongside result states .tooDeep .tooDeep

/-- From related states the computations have outcomes alongside each other. -/
def InStep (result : α → β → Prop) (states : Hoisted → Hoisted → Prop) (x : Hoisting α)
    (y : Hoisting β) : Prop :=
  ∀ h h', states h h' → Alongside result states (x h) (y h')

variable {result : α → β → Prop} {after : γ → δ → Prop} {states : Hoisted → Hoisted → Prop}

/-- Related results are returned in related states. -/
theorem InStep.pure {a : α} {b : β} (h : result a b) :
    InStep result states (Pure.pure a) (Pure.pure b) :=
  fun _ _ hs => .done h hs

theorem InStep.fail (problem problem' : SchemaProblem) :
    InStep result states (.fail problem) (.fail problem') :=
  fun _ _ _ => .failed problem problem'

/-- Two runs in step are gone on with in step, from related results in related states. -/
theorem InStep.bind {x : Hoisting α} {y : Hoisting β} {f : α → Hoisting γ} {g : β → Hoisting δ}
    (hx : InStep result states x y) (hf : ∀ a b, result a b → InStep after states (f a) (g b)) :
    InStep after states (x >>= f) (y >>= g) := by
  intro h h' hs
  have hfirst := hx h h' hs
  simp only [bind_apply]
  generalize x h = outcome at hfirst ⊢
  generalize y h' = outcome' at hfirst ⊢
  cases hfirst with
  | done hr hs => exact hf _ _ hr _ _ hs
  | failed problem problem' => exact .failed problem problem'
  | tooDeep => exact .tooDeep

variable {related : TypeExpr → TypeExpr → Prop} {child : Node → Node → Prop}
  {unknown' : TypeExpr} {asked asked' : List Demand} {x : Asking α} {y : Asking β}
  {typeOf typeOf' : Node → Hoisting TypeExpr} {follow follow' : String → Hoisting TypeExpr}

/-- Computations that meet corresponding demands go in step if the demands are met in step. -/
theorem MeetBoth.inStep (hx : MeetBoth related child unknown' result asked asked' x y)
    (hobject : ∀ node node', child node node' → (∃ fields, node.value = .object fields) →
      ∃ fields, node'.value = .object fields)
    (hmet : ∀ demand demand' : Demand, demand.Pair child demand' →
      InStep related states (demand.meet typeOf follow) (demand'.meet typeOf' follow')) :
    InStep result states (x typeOf follow) (y typeOf' follow') := by
  induction hx with
  | pure h => exact .pure h
  | refused problem problem' => exact .fail problem problem'
  | next hd _ _ ih => exact (hmet _ _ hd).bind ih
  | known hd ho hv =>
    -- a schema with keywords corresponds to one with keywords, and to no truth value
    obtain ⟨fields, hv'⟩ := hobject _ _ hd ho
    rw [hv] at hv'
    cases hv'
  | stopped _ _ _ hd ho hv =>
    obtain ⟨fields, hv'⟩ := hobject _ _ hd ho
    exact absurd hv' (hv.1 fields)

end Outcomes

/-! ## Contexts -/

section Contexts

variable (related : TypeExpr → TypeExpr → Prop) (child : Node → Node → Prop)

/-- Declarations under the same name with the same comment, of related types. -/
inductive DeclarationPair : Declaration → Declaration → Prop where
  | ofType {type type' : TypeExpr} (name : String) (comment : Option String)
      (h : related type type') :
      DeclarationPair (.ofType name type comment) (.ofType name type' comment)

/-- The same places have the same names, and the declarations correspond in order. -/
structure StatePair (h h' : Hoisted) : Prop where
  taken : h'.taken = h.taken
  names : h'.names = h.names
  declarations : List.Forall₂ (DeclarationPair related) h.declarations h'.declarations

/-- References lead to corresponding nodes, or nowhere. -/
inductive TargetPair : Except SchemaProblem Target → Except SchemaProblem Target → Prop where
  | nowhere (problem problem' : SchemaProblem) : TargetPair (.error problem) (.error problem')
  | document : TargetPair (.ok .document) (.ok .document)
  | node {node node' : Node} (h : child node node') :
      TargetPair (.ok (.node node)) (.ok (.node node'))

/-- Corresponding nodes are at the same place and are worked out alike. -/
structure InParallel (context context' : Context) : Prop where
  name : context'.name = context.name
  root : child (.root context.document) (.root context'.document)
  place {node node' : Node} : child node node' → node'.path = node.path
  title {node node' : Node} : child node node' → node'.title? = node.title?
  comment {node node' : Node} : child node node' → comment? node'.value = comment? node.value
  object (node node' : Node) : child node node' → (∃ fields, node.value = .object fields) →
    ∃ fields, node'.value = .object fields
  target (reference : String) :
    TargetPair child (target context reference) (target context' reference)
  named (name : String) : related (.named name) (.named name)
  schema {node node' : Node} : child node node' →
    MeetBoth related child context'.unknown related (demands node) (demands node')
      (fun typeOf follow => typeOfSchema context typeOf follow node)
      fun typeOf follow => typeOfSchema context' typeOf follow node'

end Contexts

section Runs

variable {related : TypeExpr → TypeExpr → Prop} {child : Node → Node → Prop}
  {context context' : Context} {depth : Nat} {node node' : Node}
  {h h' : Hoisted}

theorem StatePair.nameAt (hs : StatePair related h h') (path : List Step) :
    nameAt h' path = nameAt h path := by
  show h'.names.lookup path = h.names.lookup path
  rw [hs.names]

/-- Related states have taken the same names, so they give the same new one. -/
theorem StatePair.newName (hs : StatePair related h h') (title : String) :
    newName h' title = newName h title := by
  show Names.unusedName h'.taken _ = Names.unusedName h.taken _
  rw [hs.taken]

/-- A name that is given on both sides keeps the states related, -/
theorem StatePair.withName (hs : StatePair related h h') (path : List Step) (name : String) :
    StatePair related (withName h path name) (withName h' path name) where
  taken := congrArg (name :: ·) hs.taken
  names := congrArg ((path, name) :: ·) hs.names
  declarations := hs.declarations

/-- and so does a declaration of related types. -/
theorem StatePair.withDeclaration (hs : StatePair related h h') {type type' : TypeExpr}
    (ht : related type type') (name : String) (comment : Option String) :
    StatePair related (withDeclaration h (.ofType name type comment))
      (withDeclaration h' (.ofType name type' comment)) where
  taken := hs.taken
  names := hs.names
  declarations := List.rel_append hs.declarations (.cons (.ofType name comment ht) .nil)

/-- Corresponding schemas are worked out in step. -/
def WorkedInStep (related : TypeExpr → TypeExpr → Prop) (child : Node → Node → Prop)
    (context context' : Context) (depth : Nat) : Prop :=
  ∀ active node node', child node node' → InStep related (StatePair related)
    (typeAt context depth active node) (typeAt context' depth active node')

variable (hp : InParallel related child context context')
include hp

/-- A reference is followed in step: it leads to the document on both sides or to schemas that are
paired. -/
theorem InParallel.referredType (ih : WorkedInStep related child context context' depth)
    (active : List String) (reference : String) :
    InStep related (StatePair related)
      (Schema.referredType context (Schema.typeAt context depth) active reference)
      (Schema.referredType context' (Schema.typeAt context' depth) active reference) := by
  have htarget := hp.target reference
  unfold Schema.referredType
  generalize Schema.target context reference = leads at htarget ⊢
  generalize Schema.target context' reference = leads' at htarget ⊢
  cases htarget with
  | nowhere problem problem' => exact .fail problem problem'
  | document =>
    dsimp only
    rw [hp.name]
    exact .pure (hp.named context.name)
  | node hchild =>
    dsimp only
    rw [hp.title hchild]
    split
    · exact ih active _ _ hchild
    split
    · exact .fail _ _
    · exact ih (reference :: active) _ _ hchild

/-- The body of a schema is worked out in step, since its demands are paired. -/
theorem InParallel.bodyAt (ih : WorkedInStep related child context context' depth)
    (active : List String) (hchild : child node node') :
    InStep related (StatePair related) (Schema.bodyAt context depth active node)
      (Schema.bodyAt context' depth active node') := by
  refine (hp.schema hchild).inStep hp.object fun demand demand' hpair => ?_
  cases hpair with
  | inner hchild => exact ih active _ _ hchild
  | referred reference => exact hp.referredType ih active reference

/-- Corresponding schemas at their places are worked out in step, to any depth. -/
theorem InParallel.typeAt (depth : Nat) : WorkedInStep related child context context' depth := by
  induction depth with
  | zero => exact fun _ _ _ _ _ _ _ => .tooDeep
  | succ depth ih =>
    intro active node node' hchild
    cases ht : node.title? with
    | none =>
      have ht' : node'.title? = none := (hp.title hchild).trans ht
      rw [typeAt_untitled _ _ _ ht, typeAt_untitled _ _ _ ht']
      exact hp.bodyAt ih active hchild
    | some title =>
      have ht' : node'.title? = some title := (hp.title hchild).trans ht
      intro h h' hs
      have hname' := hs.nameAt node.path
      cases hname : nameAt h node.path with
      | some name =>
        rw [hname, ← hp.place hchild] at hname'
        rw [typeAt_named _ _ _ ht hname, typeAt_named _ _ _ ht' hname']
        exact .done (hp.named name) hs
      | none =>
        rw [hname, ← hp.place hchild] at hname'
        rw [typeAt_unnamed _ _ _ ht hname, typeAt_unnamed _ _ _ ht' hname', hs.newName,
          hp.place hchild, hp.comment hchild]
        have hbody := hp.bodyAt ih active hchild _ _
          (hs.withName node.path (newName h title))
        generalize Schema.bodyAt context depth active node _ = outcome at hbody ⊢
        generalize Schema.bodyAt context' depth active node' _ = outcome' at hbody ⊢
        cases hbody with
        | done htype hs => exact .done (hp.named _) (hs.withDeclaration htype _ _)
        | failed problem problem' => exact .failed problem problem'
        | tooDeep => exact .tooDeep

end Runs

/-! ## Documents -/

/-- Documents that are worked out alike have corresponding declarations, or neither has any. -/
theorem InParallel.declarations {related : TypeExpr → TypeExpr → Prop}
    {child : Node → Node → Prop} {document document' : Json} {name : String}
    {style style' : Style}
    (hp : InParallel related child ⟨document, name, style⟩ ⟨document', name, style'⟩) :
    Option.Rel (List.Forall₂ (DeclarationPair related))
      (Schema.declarations document name style).toOption
      (Schema.declarations document' name style').toOption := by
  -- at a depth that suffices for both documents both runs are what they are at their own depths
  obtain ⟨heq, hdeep⟩ := settled_typeOfDocument ⟨document, name, style⟩ { taken := [name] }
    (depthBound document')
  obtain ⟨heq', -⟩ := settled_typeOfDocument ⟨document', name, style'⟩ { taken := [name] }
    (depthBound document)
  have hstart : StatePair related { taken := [name] } { taken := [name] } := ⟨rfl, rfl, .nil⟩
  have hruns := hp.bodyAt (hp.typeAt (depthBound document + depthBound document')) [] hp.root _ _
    hstart
  have hbody : Alongside related (StatePair related)
      (typeOfDocument ⟨document, name, style⟩ (depthBound document + depthBound document')
        { taken := [name] })
      (typeOfDocument ⟨document', name, style'⟩ (depthBound document + depthBound document')
        { taken := [name] }) := hruns
  rw [heq, Nat.add_comm, heq'] at hbody
  unfold Schema.declarations
  generalize typeOfDocument ⟨document, name, style⟩ _ _ = outcome at hbody hdeep ⊢
  generalize typeOfDocument ⟨document', name, style'⟩ _ _ = outcome' at hbody ⊢
  cases hbody with
  | done htype hs =>
    rw [show comment? document' = comment? document from hp.comment hp.root]
    exact .some (.cons (.ofType name _ htype) hs.declarations)
  | failed => exact .none
  | tooDeep => exact absurd rfl hdeep

end LintTypes.Schema
