import LintTypes.Proofs.SchemaRuns
import Mathlib.Algebra.GroupWithZero.Nat
import Mathlib.Algebra.Order.BigOperators.Group.List
import Mathlib.Algebra.Order.Group.Nat

/-!
# The depth that a document needs

References may lead anywhere, so that a schema says nothing about how far the way goes on from it.
What bounds the way is what is left of the document: a place gets its name once (`unnamed` counts
those without one), a reference to an untitled schema is followed once at a time (`unfollowed`
counts the strings that could still be one), and in between the way leads downwards.

`Settled` says of two computations that they agree and do not end for lack of depth. Working out a
schema is settled between any two depths that the measure allows, and so is a whole document from
`depthBound` on.
-/

namespace LintTypes

/-! ## Sizes -/

namespace Node

variable {node child : Node} {document : Json}

theorem values_children (node : Node) :
    node.children.map Node.value =
      node.value.items?.getD [] ++ (node.value.fields?.getD []).map Prod.snd := by
  rw [children, List.map_append, values_items]
  simp [fields, below]

theorem size_eq (node : Node) :
    node.value.size = (node.children.map fun child => child.value.size).sum + 1 := by
  have hsizes : (node.children.map fun child => child.value.size) =
      (node.children.map Node.value).map Json.size := by simp
  rw [hsizes, values_children]
  cases node.value with
  | array items => simp [Json.size, Json.sizeItems_eq, Json.items?, Json.fields?]
  | object fields => simp [Json.size, Json.sizeFields_eq, Json.items?, Json.fields?]
  | _ => simp [Json.size, Json.items?, Json.fields?]

theorem size_lt_of_mem_children (h : child ∈ node.children) :
    child.value.size < node.value.size := by
  have hle : child.value.size ≤ (node.children.map fun child => child.value.size).sum :=
    List.le_sum_of_mem (List.mem_map_of_mem h)
  have := node.size_eq
  omega

/-! ## Nodes of a document -/

/-- The node and all nodes below it. -/
def subnodes (node : Node) : List Node :=
  node :: node.children.attach.flatMap fun child => child.1.subnodes
termination_by node.value.size
decreasing_by exact size_lt_of_mem_children child.2

theorem subnodes_eq (node : Node) :
    node.subnodes = node :: node.children.flatMap subnodes := by
  rw [subnodes]
  simp

theorem length_subnodes (node : Node) : node.subnodes.length = node.value.size := by
  induction hsize : node.value.size using Nat.strong_induction_on generalizing node with
  | _ size ih =>
    have hchildren : (node.children.map fun child => child.subnodes.length) =
        node.children.map fun child => child.value.size :=
      List.map_congr_left fun child hchild =>
        ih _ (hsize ▸ size_lt_of_mem_children hchild) child rfl
    rw [subnodes_eq, List.length_cons, List.length_flatMap, hchildren, ← size_eq, hsize]

/-- What is below a node below is below. -/
theorem mem_subnodes_of_children (h : node ∈ (root document).subnodes)
    (hc : child ∈ node.children) : child ∈ (root document).subnodes := by
  -- The induction goes down from the top, so the top may be any node.
  generalize root document = top at h ⊢
  induction hsize : top.value.size using Nat.strong_induction_on generalizing top with
  | _ size ih =>
    rw [subnodes_eq] at h ⊢
    refine List.mem_cons_of_mem _ (List.mem_flatMap.2 ?_)
    rcases List.mem_cons.1 h with rfl | h
    · refine ⟨child, hc, ?_⟩
      rw [subnodes_eq]
      exact List.mem_cons_self ..
    · obtain ⟨next, hnext, hmem⟩ := List.mem_flatMap.1 h
      exact ⟨next, hnext, ih _ (hsize ▸ size_lt_of_mem_children hnext) next hmem rfl⟩

theorem size_le_of_mem_subnodes (h : node ∈ (root document).subnodes) :
    node.value.size ≤ document.size := by
  show node.value.size ≤ (root document).value.size
  generalize root document = top at h ⊢
  induction hsize : top.value.size using Nat.strong_induction_on generalizing top with
  | _ size ih =>
    rw [subnodes_eq] at h
    rcases List.mem_cons.1 h with rfl | h
    · exact hsize.le
    · obtain ⟨next, hnext, hmem⟩ := List.mem_flatMap.1 h
      have hlt := size_lt_of_mem_children hnext
      have hle := ih _ (hsize ▸ hlt) next hmem rfl
      omega

end Node

namespace Pointer

theorem mem_children_of_enter? {node child : Node} {segment : List Char}
    (h : enter? node segment = some child) : child ∈ node.children := by
  unfold enter? at h
  simp only at h
  split at h
  · exact Node.mem_children_of_field? h
  · obtain ⟨index, -, hitem⟩ := Option.bind_eq_some_iff.1 h
    exact Node.mem_children_of_items (List.mem_of_getElem? hitem)
  · cases h

/-- Pointers lead to nodes of the document. -/
theorem mem_subnodes_of_resolve? {document : Json} {pointer : List Char} {node : Node}
    (h : resolve? document pointer = some node) : node ∈ (Node.root document).subnodes := by
  have hroot : Node.root document ∈ (Node.root document).subnodes := by
    rw [Node.subnodes_eq]
    exact List.mem_cons_self ..
  have hfold : ∀ (segments : List (List Char)) (start : Node),
      start ∈ (Node.root document).subnodes → segments.foldlM enter? start = some node →
      node ∈ (Node.root document).subnodes := by
    intro segments
    induction segments with
    | nil =>
      intro start hs hn
      cases hn
      exact hs
    | cons segment segments ih =>
      intro start hs hn
      rw [List.foldlM_cons] at hn
      obtain ⟨next, hnext, hrest⟩ := Option.bind_eq_some_iff.1 hn
      exact ih next (Node.mem_subnodes_of_children hs (mem_children_of_enter? hnext)) hrest
  unfold resolve? at h
  split at h
  · cases h
    exact hroot
  · obtain ⟨segments, -, hrest⟩ := Option.bind_eq_some_iff.1 h
    exact hfold segments _ hroot hrest

end Pointer

namespace Schema

open Hoisting

/-! ## What is left -/

/-- The number of nodes of the document whose place has no name. -/
def unnamed (document : Json) (h : Hoisted) : Nat :=
  (Node.root document).subnodes.countP fun node => (nameAt h node.path).isNone

/-- The number of strings in the document that are no reference that is being followed. -/
def unfollowed (document : Json) (active : List String) : Nat :=
  (Node.root document).subnodes.countP fun node =>
    node.value.string?.any fun reference => !active.contains reference

/-- Fewer members have the property if one of them lost it. -/
theorem countP_lt {α : Type} {p q : α → Bool} {xs : List α} (h : ∀ x ∈ xs, p x → q x) {x : α}
    (hx : x ∈ xs) (hp : p x = false) (hq : q x = true) : xs.countP p < xs.countP q := by
  obtain ⟨before, after, rfl⟩ := List.append_of_mem hx
  have hbefore := List.countP_mono_left (l := before) (p := p) (q := q) fun y hy =>
    h y (List.mem_append_left _ hy)
  have hafter := List.countP_mono_left (l := after) (p := p) (q := q) fun y hy =>
    h y (List.mem_append_right _ (List.mem_cons_of_mem _ hy))
  simp only [List.countP_append, List.countP_cons, hp, hq]
  simp only [Bool.false_eq_true, if_false, if_true]
  omega

variable {document : Json} {node : Node} {active : List String}

theorem unnamed_le (document : Json) (h : Hoisted) : unnamed document h ≤ document.size := by
  have := (Node.root document).length_subnodes
  exact this ▸ List.countP_le_length

theorem unfollowed_le (document : Json) (active : List String) :
    unfollowed document active ≤ document.size := by
  have := (Node.root document).length_subnodes
  exact this ▸ List.countP_le_length

/-- Giving a name uses up a place. -/
theorem unnamed_withName {h : Hoisted} (hn : node ∈ (Node.root document).subnodes)
    (hnone : nameAt h node.path = none) (name : String) :
    unnamed document (withName h node.path name) < unnamed document h := by
  refine countP_lt (fun other _ hother => ?_) hn ?_ ?_
  · rw [nameAt_withName] at hother
    split at hother
    · cases hother
    · exact hother
  · rw [nameAt_withName, if_pos rfl]
    rfl
  · rw [hnone]
    rfl

/-- Following a reference uses up its text. -/
theorem unfollowed_cons {reference : String} (hn : node ∈ (Node.root document).subnodes)
    (hr : node.value.get? "$ref" = some (.string reference)) (ha : reference ∉ active) :
    unfollowed document (reference :: active) < unfollowed document active := by
  have hchild := Node.mem_subnodes_of_children hn (Node.below_mem_children hr)
  refine countP_lt (fun other _ hother => ?_) hchild ?_ ?_
  · cases hs : other.value.string? with
    | none =>
      rw [hs] at hother
      cases hother
    | some text =>
      rw [hs] at hother
      simp only [Option.any_some, List.contains_cons, Bool.not_or, Bool.and_eq_true] at hother ⊢
      exact hother.2
  · simp [Node.below, Json.string?]
  · simpa [Node.below, Json.string?] using ha

/-! ## Agreement -/

section Agreement

variable {α β : Type}

/-- From good states the computations agree, do not run out of depth, and lead to good states. -/
def Settled (good : Hoisted → Prop) (x y : Hoisting α) : Prop :=
  ∀ h, good h → x h = y h ∧ x h ≠ .tooDeep ∧ ∀ a h', x h = .done a h' → good h'

variable {good : Hoisted → Prop}

theorem Settled.pure (a : α) : Settled good (Pure.pure a) (Pure.pure a) := by
  intro h hg
  refine ⟨rfl, nofun, ?_⟩
  rintro _ _ ⟨⟩
  exact hg

theorem Settled.fail (problem : SchemaProblem) :
    Settled (α := α) good (.fail problem) (.fail problem) :=
  fun _ _ => ⟨rfl, nofun, nofun⟩

theorem Settled.bind {x y : Hoisting α} {f g : α → Hoisting β} (hx : Settled good x y)
    (hf : ∀ a, Settled good (f a) (g a)) : Settled good (x >>= f) (y >>= g) := by
  intro h hg
  obtain ⟨heq, hdeep, hkept⟩ := hx h hg
  simp only [bind_apply, ← heq]
  cases hx' : x h with
  | done a h₁ => exact hf a h₁ (hkept a h₁ hx')
  | failed problem => exact ⟨rfl, nofun, nofun⟩
  | tooDeep => exact absurd hx' hdeep

theorem Meets.settled {asked : List Demand} {x : Asking α} (hx : Meets asked x)
    {typeOf typeOf' : Node → Hoisting TypeExpr} {follow follow' : String → Hoisting TypeExpr}
    (hs : ∀ demand ∈ asked,
      Settled good (demand.meet typeOf follow) (demand.meet typeOf' follow')) :
    Settled good (x typeOf follow) (x typeOf' follow') := by
  induction hx with
  | pure value => exact .pure value
  | refused problem rest => exact .fail problem
  | next demand _ ih =>
    obtain ⟨hfirst, hrest⟩ := List.forall_mem_cons.1 hs
    exact hfirst.bind fun type => ih type hrest

end Agreement

/-! ## Enough depth -/

section Depth

variable {context : Context}

/-- A depth that is enough to enter a schema while `count` places have no name: the whole size of
the document for each name and each reference that is left. -/
def entryDepth (document : Json) (active : List String) (count : Nat) : Nat :=
  (count + unfollowed document active) * (document.size + 1)

/-- What a schema itself adds to the depth: its size, or nothing to speak of if it has a title and
thereby uses up a name. -/
def ownDepth (node : Node) : Nat := if node.title?.isSome then 1 else node.value.size

theorem ownDepth_pos (node : Node) : 0 < ownDepth node := by
  unfold ownDepth
  split
  · exact one_pos
  · rw [Node.size_eq]
    omega

theorem ownDepth_le (node : Node) : ownDepth node ≤ node.value.size := by
  unfold ownDepth
  split
  · rw [Node.size_eq]
    omega
  · exact le_rfl

/-- One name or one reference is worth the size of the document. -/
theorem entryDepth_lt {active' : List String} {count count' : Nat}
    (h : count' + unfollowed document active' < count + unfollowed document active) :
    entryDepth document active' count' + document.size < entryDepth document active count := by
  have hmul : (count' + unfollowed document active' + 1) * (document.size + 1) ≤
      (count + unfollowed document active) * (document.size + 1) := Nat.mul_le_mul_right _ h
  rw [Nat.add_mul, one_mul] at hmul
  unfold entryDepth
  omega

/-- A schema is settled at both depths. -/
def SettledAt (context : Context) (depth depth' : Nat) : Prop :=
  ∀ (count : Nat) (active : List String) (node : Node),
    node ∈ (Node.root context.document).subnodes →
    entryDepth context.document active count + ownDepth node ≤ depth →
    entryDepth context.document active count + ownDepth node ≤ depth' →
    Settled (fun h => unnamed context.document h ≤ count) (typeAt context depth active node)
      (typeAt context depth' active node)

variable {depth depth' count : Nat}

/-- A reference uses up its text, or the name of a titled schema. -/
theorem settled_referredType (ih : SettledAt context depth depth')
    (hn : node ∈ (Node.root context.document).subnodes) {reference : String}
    (hr : node.value.get? "$ref" = some (.string reference))
    (hd : entryDepth context.document active count + node.value.size ≤ depth + 1)
    (hd' : entryDepth context.document active count + node.value.size ≤ depth' + 1) :
    Settled (fun h => unnamed context.document h ≤ count)
      (referredType context (typeAt context depth) active reference)
      (referredType context (typeAt context depth') active reference) := by
  cases referral context active reference with
  | targetless _ hr =>
    rw [hr, hr]
    exact .fail _
  | document _ hr =>
    rw [hr, hr]
    exact .pure _
  | again _ _ _ hr =>
    rw [hr, hr]
    exact .fail _
  | @titled child title ht htitle href =>
    rw [href, href]
    obtain ⟨pointer, -, hresolve⟩ := target_node ht
    -- The schema holds at least the text of the reference besides itself.
    have hown : ownDepth child = 1 := by simp [ownDepth, htitle]
    have hsize : 1 < node.value.size := by
      have hlt := Node.size_lt_of_mem_children (Node.below_mem_children hr)
      have hpos := (node.below (.field "$ref") (.string reference)).size_eq
      omega
    exact ih count active child (Pointer.mem_subnodes_of_resolve? hresolve) (by omega) (by omega)
  | @followed child ht _ ha href =>
    rw [href, href]
    obtain ⟨pointer, -, hresolve⟩ := target_node ht
    have hchild := Pointer.mem_subnodes_of_resolve? hresolve
    have hless : entryDepth context.document (reference :: active) count +
        context.document.size < entryDepth context.document active count :=
      entryDepth_lt (Nat.add_lt_add_left (unfollowed_cons hn hr ha) count)
    have hown := (ownDepth_le child).trans (Node.size_le_of_mem_subnodes hchild)
    exact ih count (reference :: active) child hchild (by omega) (by omega)

/-- The keywords of a schema lead downwards, or on by a reference. -/
theorem settled_bodyAt (ih : SettledAt context depth depth')
    (hn : node ∈ (Node.root context.document).subnodes)
    (hd : entryDepth context.document active count + node.value.size ≤ depth + 1)
    (hd' : entryDepth context.document active count + node.value.size ≤ depth' + 1) :
    Settled (fun h => unnamed context.document h ≤ count) (bodyAt context depth active node)
      (bodyAt context depth' active node) := by
  refine (meets_typeOfSchema context node).settled fun demand hdemand => ?_
  cases ofNode_of_mem_demands hdemand with
  | @child child hchild =>
    have hsize := Node.size_lt_of_mem_children hchild
    have hown := ownDepth_le child
    exact ih count active child (Node.mem_subnodes_of_children hn hchild) (by omega) (by omega)
  | @grandchild parent child hparent hchild =>
    have hsize := Node.size_lt_of_mem_children hparent
    have hsize' := Node.size_lt_of_mem_children hchild
    have hown := ownDepth_le child
    have hin := Node.mem_subnodes_of_children (Node.mem_subnodes_of_children hn hparent) hchild
    exact ih count active child hin (by omega) (by omega)
  | referred hr => exact settled_referredType ih hn hr hd hd'
  | refused _ => exact .fail _

/-- Any two depths that both suffice for the schemas on the way give the same outcome. -/
theorem settledAt (context : Context) (depth depth' : Nat) : SettledAt context depth depth' := by
  -- Both depths are counted down together; the measure keeps either from reaching zero first.
  induction depth generalizing depth' with
  | zero =>
    intro count active node _ hd
    have := ownDepth_pos node
    omega
  | succ depth ih =>
    intro count active node hn hd hd'
    cases depth' with
    | zero =>
      have := ownDepth_pos node
      omega
    | succ depth' =>
      cases htitle : node.title? with
      | none =>
        have hown : ownDepth node = node.value.size := by simp [ownDepth, htitle]
        rw [hown] at hd hd'
        rw [typeAt_untitled _ _ _ htitle, typeAt_untitled _ _ _ htitle]
        exact settled_bodyAt (ih depth') hn hd hd'
      | some title =>
        have hown : ownDepth node = 1 := by simp [ownDepth, htitle]
        intro h hcount
        cases hname : nameAt h node.path with
        | some name =>
          rw [typeAt_named _ depth _ htitle hname, typeAt_named _ depth' _ htitle hname]
          refine ⟨rfl, nofun, ?_⟩
          rintro _ _ ⟨⟩
          exact hcount
        | none =>
          rw [typeAt_unnamed _ depth _ htitle hname, typeAt_unnamed _ depth' _ htitle hname]
          -- The name is given before the keywords count: one place less has none, and that is worth
          -- the size of the document.
          have hless := unnamed_withName hn hname (newName h title)
          obtain ⟨count, rfl⟩ : ∃ less, count = less + 1 := ⟨count - 1, by omega⟩
          have hentry : entryDepth context.document active count + context.document.size <
              entryDepth context.document active (count + 1) := entryDepth_lt (by omega)
          have hsize := Node.size_le_of_mem_subnodes hn
          have hbody : Settled (fun h => unnamed context.document h ≤ count)
              (bodyAt context depth active node) (bodyAt context depth' active node) :=
            settled_bodyAt (ih depth') hn (by omega) (by omega)
          obtain ⟨heq, hdeep, hkept⟩ :=
            hbody (withName h node.path (newName h title)) (by omega)
          rw [← heq]
          cases hrun : bodyAt context depth active node
              (withName h node.path (newName h title)) with
          | done type h₁ =>
            have hle := hkept type h₁ hrun
            refine ⟨rfl, nofun, ?_⟩
            rintro _ _ ⟨⟩
            exact Nat.le_succ_of_le hle
          | failed problem => exact ⟨rfl, nofun, nofun⟩
          | tooDeep => exact absurd hrun hdeep

end Depth

/-! ## Documents -/

/-- From `depthBound` on the depth is enough and makes no difference. -/
theorem settled_typeOfDocument (context : Context) (h : Hoisted) (more : Nat) :
    typeOfDocument context (depthBound context.document + more) h =
        typeOfDocument context (depthBound context.document) h ∧
      typeOfDocument context (depthBound context.document) h ≠ .tooDeep := by
  have hroot : Node.root context.document ∈ (Node.root context.document).subnodes := by
    rw [Node.subnodes_eq]
    exact List.mem_cons_self ..
  have hentry : entryDepth context.document [] context.document.size + context.document.size ≤
      depthBound context.document := by
    have hleft : context.document.size + unfollowed context.document [] ≤
        2 * context.document.size := by
      have := unfollowed_le context.document []
      omega
    have hmul := Nat.mul_le_mul_right (context.document.size + 1) hleft
    have hbound : depthBound context.document =
        2 * context.document.size * (context.document.size + 1) +
          2 * (context.document.size + 1) := by
      rw [depthBound, ← Nat.add_mul]
      rfl
    unfold entryDepth
    omega
  have hsettled : Settled (fun h => unnamed context.document h ≤ context.document.size)
      (bodyAt context (depthBound context.document) [] (.root context.document))
      (bodyAt context (depthBound context.document + more) [] (.root context.document)) := by
    refine settled_bodyAt (settledAt context _ _) hroot ?_ ?_
    · show entryDepth _ _ _ + context.document.size ≤ _
      omega
    · show entryDepth _ _ _ + context.document.size ≤ _
      omega
  obtain ⟨heq, hdeep, -⟩ := hsettled h (unnamed_le context.document h)
  exact ⟨heq.symm, hdeep⟩

/-- There is no problem of depth: a document has declarations, or a schema in it is at fault. -/
theorem declarations_ok_or_blamed (document : Json) (name : String) (style : Style) :
    (∃ declarations, Schema.declarations document name style = .ok declarations) ∨
      ∃ problem, Schema.declarations document name style = .error problem ∧
        Blamed ⟨document, name, style⟩ [] (.root document) problem := by
  have hdeep := (settled_typeOfDocument ⟨document, name, style⟩ { taken := [name] } 0).2
  unfold Schema.declarations
  cases hrun : typeOfDocument ⟨document, name, style⟩ (depthBound document) { taken := [name] } with
  | done type hoisted => exact .inl ⟨_, rfl⟩
  | failed problem =>
    exact .inr ⟨problem, rfl, blamed_of_bodyAt_failed (fun _ _ _ => blamed_of_typeAt_failed) hrun⟩
  | tooDeep => exact absurd hrun hdeep

/-- Working out a document ends. However deep it may go, it goes no deeper than `depthBound`, where
it is done or has found a problem; so a document has declarations or a problem of its own, whatever
its schemas refer to. -/
theorem declarations_terminates (document : Json) (name : String) (style : Style) :
    (∀ more, typeOfDocument ⟨document, name, style⟩ (depthBound document + more)
        { taken := [name] } =
      typeOfDocument ⟨document, name, style⟩ (depthBound document) { taken := [name] }) ∧
    typeOfDocument ⟨document, name, style⟩ (depthBound document) { taken := [name] } ≠ .tooDeep ∧
    ((∃ declarations, Schema.declarations document name style = .ok declarations) ∨
      ∃ problem, Schema.declarations document name style = .error problem ∧
        ∀ reason, problem ≠ .rejected reason) := by
  refine ⟨fun more => (settled_typeOfDocument ⟨document, name, style⟩ _ more).1,
    (settled_typeOfDocument ⟨document, name, style⟩ _ 0).2, ?_⟩
  rcases declarations_ok_or_blamed document name style with hok | ⟨problem, herror, hblamed⟩
  · exact .inl hok
  · exact .inr ⟨problem, herror, hblamed.ne_rejected⟩

end Schema

end LintTypes
