import LintTypes.Proofs.SchemaTyping
import Mathlib.Data.List.Forall2
import Mathlib.Data.Option.Basic

/-!
# Related types

Relations between types that are respected by all that is done to make types of schemas
(`Congruent`): types that are put together in the same way of related types are related. Arrays with
bounds are put together in this way, whatever the bounds are. The intersection of no types is set
apart, since it is the only way to get `unknown` that no choice of the user changes (`Respected`).
-/

namespace LintTypes.Schema

/-! ## Related types -/

section Types

variable (related : TypeExpr → TypeExpr → Prop) (remarks : Option String → Option String → Prop)

/-- Slots of the same kind with related types. -/
inductive SlotPair : Slot → Slot → Prop where
  | required {type type' : TypeExpr} (h : related type type') :
      SlotPair (.required type) (.required type')
  | rest {type type' : TypeExpr} (h : related type type') : SlotPair (.rest type) (.rest type')

/-- Members under the same key with related types and comments. -/
inductive MemberPair : Member → Member → Prop where
  | property {name : String} {isOptional : Bool} {type type' : TypeExpr}
      {comment comment' : Option String} (h : related type type') (hc : remarks comment comment') :
      MemberPair (.property name type isOptional comment) (.property name type' isOptional comment')
  | anyKey {type type' : TypeExpr} (h : related type type') :
      MemberPair (.anyKey type) (.anyKey type')

/-- The relation is respected by all that is done to make types of schemas, but maybe not by the
intersection of no types. -/
structure Respected : Prop where
  keyword (word : Keyword) : word ≠ .any → word ≠ .unknown →
    related (.keyword word) (.keyword word)
  literal {listed : Json} {value : Literal} : LiteralTyped listed (.literal value) →
    related (.literal value) (.literal value)
  array {type type' : TypeExpr} : related type type' → related (.array type) (.array type')
  tuple {slots slots' : List Slot} : List.Forall₂ (SlotPair related) slots slots' →
    related (.tuple slots) (.tuple slots')
  object {members members' : List Member} :
    List.Forall₂ (MemberPair related remarks) members members' →
    related (.object members) (.object members')
  unionOf {types types' : List TypeExpr} : List.Forall₂ related types types' →
    related (.unionOf types) (.unionOf types')
  intersectionOf {types types' : List TypeExpr} : types ≠ [] → List.Forall₂ related types types' →
    related (.intersectionOf types) (.intersectionOf types')

/-- The relation is respected by all that is done to make types of schemas. -/
structure Congruent : Prop extends Respected related remarks where
  /-- The intersection of no types is `unknown`. -/
  unknown : related .unknown .unknown

end Types

variable {related : TypeExpr → TypeExpr → Prop} {remarks : Option String → Option String → Prop} in
/-- The intersection of some types, or of none if these are related as well. -/
theorem Respected.intersectionOf_of (hc : Respected related remarks) {types types' : List TypeExpr}
    (he : types = [] → related .unknown .unknown) (h : List.Forall₂ related types types') :
    related (.intersectionOf types) (.intersectionOf types') := by
  cases h with
  | nil => exact he rfl
  | cons h hothers => exact hc.intersectionOf (List.cons_ne_nil _ _) (.cons h hothers)

/-! ## Lists of related types -/

/-- Lists with equal images are related by these images. -/
theorem forall₂_iff_map_eq {α β γ : Type} {f : α → γ} {g : β → γ} {xs : List α} {ys : List β} :
    List.Forall₂ (fun x y => f x = g y) xs ys ↔ xs.map f = ys.map g := by
  rw [← List.forall₂_eq_eq_eq, List.forall₂_map_left_iff, List.forall₂_map_right_iff]

theorem map_eq_of_forall₂ {α β γ : Type} {R : α → β → Prop} {f : α → γ} {g : β → γ} {xs : List α}
    {ys : List β} (h : List.Forall₂ R xs ys) (hr : ∀ x y, R x y → f x = g y) :
    xs.map f = ys.map g :=
  forall₂_iff_map_eq.1 (h.imp hr)

theorem SlotPair.imp {related related' : TypeExpr → TypeExpr → Prop}
    (hr : ∀ type type', related type type' → related' type type') {slot slot' : Slot}
    (h : SlotPair related slot slot') : SlotPair related' slot slot' := by
  cases h with
  | required h => exact .required (hr _ _ h)
  | rest h => exact .rest (hr _ _ h)

/-- A finer relation between types pairs fewer members. -/
theorem MemberPair.imp {related related' : TypeExpr → TypeExpr → Prop}
    {remarks : Option String → Option String → Prop}
    (hr : ∀ type type', related type type' → related' type type') {member member' : Member}
    (h : MemberPair related remarks member member') :
    MemberPair related' remarks member member' := by
  cases h with
  | property h hc => exact .property (hr _ _ h) hc
  | anyKey h => exact .anyKey (hr _ _ h)

theorem eq_of_forall₂ {α : Type} {R : α → α → Prop} {xs ys : List α} (h : List.Forall₂ R xs ys)
    (hr : ∀ x y, R x y → x = y) : xs = ys := by
  induction h with
  | nil => rfl
  | cons h _ ih => rw [hr _ _ h, ih]

/-- Being the same is respected. -/
theorem congruent_eq : Congruent Eq Eq where
  keyword _ _ _ := rfl
  literal _ := rfl
  array h := congrArg TypeExpr.array h
  tuple h := by
    refine congrArg TypeExpr.tuple (eq_of_forall₂ h ?_)
    rintro _ _ (rfl | rfl)
    · rfl
    · rfl
  object h := by
    refine congrArg TypeExpr.object (eq_of_forall₂ h ?_)
    rintro _ _ (⟨rfl, rfl⟩ | rfl)
    · rfl
    · rfl
  unionOf h := congrArg TypeExpr.unionOf (eq_of_forall₂ h fun _ _ heq => heq)
  intersectionOf _ h := congrArg TypeExpr.intersectionOf (eq_of_forall₂ h fun _ _ heq => heq)
  unknown := rfl

/-- Two relations that are respected are respected together. -/
theorem Congruent.and {related related' : TypeExpr → TypeExpr → Prop}
    {remarks : Option String → Option String → Prop} (hc : Congruent related remarks)
    (hc' : Congruent related' remarks) :
    Congruent (fun type type' => related type type' ∧ related' type type') remarks where
  keyword word h h' := ⟨hc.keyword word h h', hc'.keyword word h h'⟩
  literal h := ⟨hc.literal h, hc'.literal h⟩
  array h := ⟨hc.array h.1, hc'.array h.2⟩
  tuple h := ⟨hc.tuple (h.imp fun _ _ => SlotPair.imp fun _ _ => And.left),
    hc'.tuple (h.imp fun _ _ => SlotPair.imp fun _ _ => And.right)⟩
  object h := ⟨hc.object (h.imp fun _ _ => MemberPair.imp fun _ _ => And.left),
    hc'.object (h.imp fun _ _ => MemberPair.imp fun _ _ => And.right)⟩
  unionOf h := ⟨hc.unionOf (h.imp fun _ _ => And.left), hc'.unionOf (h.imp fun _ _ => And.right)⟩
  intersectionOf hne h := ⟨hc.intersectionOf hne (h.imp fun _ _ => And.left),
    hc'.intersectionOf hne (h.imp fun _ _ => And.right)⟩
  unknown := ⟨hc.unknown, hc'.unknown⟩

/-- From some number on it holds of all members of two lists. -/
theorem eventually_forall₂ {α β : Type} {Q : Nat → α → β → Prop} {xs : List α} {ys : List β}
    (h : List.Forall₂ (fun x y => ∃ n, ∀ m ≥ n, Q m x y) xs ys) :
    ∃ n, ∀ m ≥ n, List.Forall₂ (Q m) xs ys := by
  induction h with
  | nil => exact ⟨0, fun _ _ => .nil⟩
  | cons h _ ih =>
    obtain ⟨n, hfirst⟩ := h
    obtain ⟨n', hrest⟩ := ih
    exact ⟨max n n', fun m hm => .cons (hfirst m (Nat.le_trans (Nat.le_max_left n n') hm))
      (hrest m (Nat.le_trans (Nat.le_max_right n n') hm))⟩

section Eventually

variable {related : Nat → TypeExpr → TypeExpr → Prop}
  {remarks : Option String → Option String → Prop}

/-- If the types of a pair of slots are related from some number on, so are the slots, -/
theorem eventually_slotPair {slot slot' : Slot}
    (h : SlotPair (fun type type' => ∃ n, ∀ m ≥ n, related m type type') slot slot') :
    ∃ n, ∀ m ≥ n, SlotPair (related m) slot slot' := by
  cases h with
  | required h =>
    obtain ⟨n, h⟩ := h
    exact ⟨n, fun m hm => .required (h m hm)⟩
  | rest h =>
    obtain ⟨n, h⟩ := h
    exact ⟨n, fun m hm => .rest (h m hm)⟩

/-- and likewise for members, whose types and keys may be so from different numbers on. -/
theorem eventually_memberPair {member member' : Member}
    (h : MemberPair (fun type type' => ∃ n, ∀ m ≥ n, related m type type') remarks member member') :
    ∃ n, ∀ m ≥ n, MemberPair (related m) remarks member member' := by
  cases h with
  | property h hremarks =>
    obtain ⟨n, h⟩ := h
    exact ⟨n, fun m hm => .property (h m hm) hremarks⟩
  | anyKey h =>
    obtain ⟨n, h⟩ := h
    exact ⟨n, fun m hm => .anyKey (h m hm)⟩

/-- Relations that are respected are respected as what holds from some number on. -/
theorem congruent_eventually (hc : ∀ n, Congruent (related n) remarks) :
    Congruent (fun type type' => ∃ n, ∀ m ≥ n, related m type type') remarks where
  keyword word h h' := ⟨0, fun m _ => (hc m).keyword word h h'⟩
  literal h := ⟨0, fun m _ => (hc m).literal h⟩
  array := by
    rintro type type' ⟨n, h⟩
    exact ⟨n, fun m hm => (hc m).array (h m hm)⟩
  tuple h := by
    obtain ⟨n, h⟩ := eventually_forall₂ (h.imp fun _ _ => eventually_slotPair)
    exact ⟨n, fun m hm => (hc m).tuple (h m hm)⟩
  object h := by
    obtain ⟨n, h⟩ := eventually_forall₂ (h.imp fun _ _ => eventually_memberPair)
    exact ⟨n, fun m hm => (hc m).object (h m hm)⟩
  unionOf h := by
    obtain ⟨n, h⟩ := eventually_forall₂ h
    exact ⟨n, fun m hm => (hc m).unionOf (h m hm)⟩
  intersectionOf hne h := by
    obtain ⟨n, h⟩ := eventually_forall₂ h
    exact ⟨n, fun m hm => (hc m).intersectionOf hne (h m hm)⟩
  unknown := ⟨0, fun m _ => (hc m).unknown⟩

end Eventually

section Arrays

variable {related : TypeExpr → TypeExpr → Prop} {remarks : Option String → Option String → Prop}
  {filler filler' : TypeExpr} {types types' : List TypeExpr} {rest rest' : Option TypeExpr}

theorem forall₂_replicate {α β : Type} {R : α → β → Prop} {a : α} {b : β} (h : R a b)
    (count : Nat) : List.Forall₂ R (List.replicate count a) (List.replicate count b) := by
  induction count with
  | zero => exact .nil
  | succ count ih => exact .cons h ih

/-- Tuples of related items with related rests are related. -/
theorem Respected.ofSlots (hc : Respected related remarks) (ht : List.Forall₂ related types types')
    (hr : Option.Rel related rest rest') :
    related (ArrayType.ofSlots types rest) (ArrayType.ofSlots types' rest') := by
  have hfront : List.Forall₂ (SlotPair related) (types.map Slot.required)
      (types'.map Slot.required) := by
    rw [List.forall₂_map_left_iff, List.forall₂_map_right_iff]
    exact ht.imp fun _ _ h => .required h
  refine hc.tuple (List.rel_append hfront ?_)
  cases hr with
  | none => exact .nil
  | some h => exact .cons (.rest h) .nil

/-- Slots that are filled up to the least length stay related. -/
theorem complete_pair (hf : related filler filler') (ht : List.Forall₂ related types types')
    (bounds : ArrayType.Bounds) (hr : Option.Rel related rest rest') :
    List.Forall₂ related (ArrayType.complete filler types bounds rest).1
        (ArrayType.complete filler' types' bounds rest').1 ∧
      Option.Rel related (ArrayType.complete filler types bounds rest).2
        (ArrayType.complete filler' types' bounds rest').2 := by
  have hlength := ht.length_eq
  obtain ⟨least, greatest⟩ := bounds
  cases hr with
  | some h => exact ⟨ht, .some h⟩
  | none =>
    cases greatest with
    | none =>
      simp only [ArrayType.complete, hlength]
      refine ⟨ht, ?_⟩
      split
      · exact .some hf
      · exact .none
    | some greatest =>
      simp only [ArrayType.complete, hlength]
      split
      · split
        · exact ⟨List.rel_append ht (forall₂_replicate hf _), .none⟩
        · exact ⟨ht, .some hf⟩
      · exact ⟨ht, .none⟩

/-- Array types that are put together from related items are related, for the same bounds. -/
theorem Respected.ofItems (hc : Respected related remarks) (hf : related filler filler')
    (ht : List.Forall₂ related types types') (bounds : ArrayType.Bounds)
    (hr : Option.Rel related rest rest') :
    related (ArrayType.ofItems filler types bounds rest)
      (ArrayType.ofItems filler' types' bounds rest') := by
  obtain ⟨hslots, hlast⟩ := complete_pair hf ht bounds hr
  unfold ArrayType.ofItems
  generalize ArrayType.complete filler types bounds rest = completed at hslots hlast ⊢
  generalize ArrayType.complete filler' types' bounds rest' = completed' at hslots hlast ⊢
  obtain ⟨slots, last⟩ := completed
  obtain ⟨slots', last'⟩ := completed'
  dsimp only at hslots hlast ⊢
  rw [← hslots.length_eq]
  split
  · exact hc.ofSlots hslots hlast
  · refine hc.unionOf (List.rel_append ?_ (.cons (hc.ofSlots hslots hlast) .nil))
    rw [List.forall₂_map_left_iff, List.forall₂_map_right_iff]
    exact List.forall₂_same.2 fun length _ => hc.ofSlots (List.forall₂_take length hslots) .none

/-- Array types over one related item are related, for the same bounds. -/
theorem Respected.uniform (hc : Respected related remarks) {item item' : TypeExpr}
    (hf : related filler filler') (hi : related item item') (bounds : ArrayType.Bounds) :
    related (ArrayType.uniform filler item bounds) (ArrayType.uniform filler' item' bounds) := by
  unfold ArrayType.uniform
  extract_lets count
  split
  · exact hc.array hi
  · refine hc.ofItems hf (forall₂_replicate hi count) bounds ?_
    split
    · exact .some hi
    · exact .none

end Arrays

end LintTypes.Schema
