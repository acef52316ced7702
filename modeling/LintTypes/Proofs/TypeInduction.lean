import LintTypes.Types.Basic

/-!
# Induction on types

Types occur in types through slots, members and keys. `TypeExpr.ind` is the one induction on all of
them: what holds of a type whenever it holds of the types directly inside holds of every type.
-/

namespace LintTypes

/-- What holds of the types directly inside a type holds of the type. -/
structure HoldsUpwards (motive : TypeExpr → Prop) : Prop where
  keyword : ∀ word, motive (.keyword word)
  literal : ∀ value, motive (.literal value)
  reference : ∀ name args, (∀ type ∈ args, motive type) → motive (.reference name args)
  array : ∀ element, motive element → motive (.array element)
  tuple : ∀ slots, (∀ slot ∈ slots, motive slot.type) → motive (.tuple slots)
  object : ∀ members, (∀ member ∈ members, motive member.type ∧
    ∀ param type, member.key = .index param type → motive type) → motive (.object members)
  union : ∀ members, (∀ type ∈ members, motive type) → motive (.union members)
  intersection : ∀ members, (∀ type ∈ members, motive type) → motive (.intersection members)
  verbatim : ∀ text, motive (.verbatim text)

namespace HoldsUpwards

variable {motive : TypeExpr → Prop}

mutual

/-- The recursion follows the constructors, and has a function for each list and record that types
stand in. -/
theorem holds (h : HoldsUpwards motive) : (type : TypeExpr) → motive type
  | .keyword word => h.keyword word
  | .literal value => h.literal value
  | .reference name args => h.reference name args (holds_types h args)
  | .array element => h.array element (holds h element)
  | .tuple slots => h.tuple slots (holds_slots h slots)
  | .object members => h.object members (holds_members h members)
  | .union members => h.union members (holds_types h members)
  | .intersection members => h.intersection members (holds_types h members)
  | .verbatim text => h.verbatim text

theorem holds_types (h : HoldsUpwards motive) :
    (types : List TypeExpr) → ∀ type ∈ types, motive type
  | [] => by simp
  | type :: types => List.forall_mem_cons.2 ⟨holds h type, holds_types h types⟩

theorem holds_slot (h : HoldsUpwards motive) : (slot : Slot) → motive slot.type
  | ⟨type, _, _⟩ => holds h type

theorem holds_slots (h : HoldsUpwards motive) :
    (slots : List Slot) → ∀ slot ∈ slots, motive slot.type
  | [] => by simp
  | slot :: slots => List.forall_mem_cons.2 ⟨holds_slot h slot, holds_slots h slots⟩

theorem holds_key (h : HoldsUpwards motive) :
    (key : MemberKey) → ∀ param type, key = .index param type → motive type
  | .named _ => fun _ _ hk => by cases hk
  | .index _ type => fun _ _ hk => by cases hk; exact holds h type

theorem holds_member (h : HoldsUpwards motive) : (member : Member) → motive member.type ∧
    ∀ param type, member.key = .index param type → motive type
  | ⟨key, type, _, _, _⟩ => ⟨holds h type, holds_key h key⟩

theorem holds_members (h : HoldsUpwards motive) : (members : List Member) → ∀ member ∈ members,
    motive member.type ∧ ∀ param type, member.key = .index param type → motive type
  | [] => by simp
  | member :: members => List.forall_mem_cons.2 ⟨holds_member h member, holds_members h members⟩

end

end HoldsUpwards

/-- Induction on types. -/
@[elab_as_elim]
theorem TypeExpr.ind {motive : TypeExpr → Prop}
    (keyword : ∀ word, motive (.keyword word)) (literal : ∀ value, motive (.literal value))
    (reference : ∀ name args, (∀ type ∈ args, motive type) → motive (.reference name args))
    (array : ∀ element, motive element → motive (.array element))
    (tuple : ∀ slots, (∀ slot ∈ slots, motive slot.type) → motive (.tuple slots))
    (object : ∀ members, (∀ member ∈ members, motive member.type ∧
      ∀ param type, member.key = .index param type → motive type) → motive (.object members))
    (union : ∀ members, (∀ type ∈ members, motive type) → motive (.union members))
    (intersection : ∀ members, (∀ type ∈ members, motive type) → motive (.intersection members))
    (verbatim : ∀ text, motive (.verbatim text)) (type : TypeExpr) : motive type :=
  HoldsUpwards.holds
    ⟨keyword, literal, reference, array, tuple, object, union, intersection, verbatim⟩ type

end LintTypes
