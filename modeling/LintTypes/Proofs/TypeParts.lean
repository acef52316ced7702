import LintTypes.Proofs.TypeInduction
import LintTypes.Proofs.WrittenForms
import LintTypes.Types.NumberText

/-!
# Types that can be written

Not every type expression can be written down such that it reads as the same type. `Printable` says
which declarations can, and `plain` what is left of one: comments are gone and numbers are in their
normal form. `Writable` is a little wider and lets intersections stand directly inside
intersections; what is left of these is a single intersection.
-/

namespace LintTypes

open Source

/-! ## The parts of a type -/

mutual

/-- A type and all types in it, at every depth. -/
def TypeExpr.parts : TypeExpr → List TypeExpr
  | .keyword word => [.keyword word]
  | .literal value => [.literal value]
  | .reference name args => .reference name args :: partsOfTypes args
  | .array element => .array element :: element.parts
  | .tuple slots => .tuple slots :: partsOfSlots slots
  | .object members => .object members :: partsOfMembers members
  | .union members => .union members :: partsOfTypes members
  | .intersection members => .intersection members :: partsOfTypes members
  | .verbatim text => [.verbatim text]

/-- The parts of several types. -/
def partsOfTypes : List TypeExpr → List TypeExpr
  | [] => []
  | type :: types => type.parts ++ partsOfTypes types

/-- The parts of the type of a slot. -/
def Slot.parts : Slot → List TypeExpr
  | ⟨type, _, _⟩ => type.parts

/-- The parts of the types of slots. -/
def partsOfSlots : List Slot → List TypeExpr
  | [] => []
  | slot :: slots => slot.parts ++ partsOfSlots slots

/-- The parts of the type of the keys of an index signature. -/
def MemberKey.parts : MemberKey → List TypeExpr
  | .named _ => []
  | .index _ type => type.parts

/-- The parts of the types of a member. -/
def Member.parts : Member → List TypeExpr
  | ⟨key, type, _, _, _⟩ => key.parts ++ type.parts

/-- The parts of the types of members. -/
def partsOfMembers : List Member → List TypeExpr
  | [] => []
  | member :: members => member.parts ++ partsOfMembers members

end

attribute [grind =] TypeExpr.parts partsOfTypes Slot.parts partsOfSlots MemberKey.parts Member.parts
  partsOfMembers

/-- The parts of types are those of one type after the other. -/
theorem partsOfTypes_eq (types : List TypeExpr) :
    partsOfTypes types = types.flatMap TypeExpr.parts := by
  induction types with
  | nil => rfl
  | cons type types ih => rw [partsOfTypes, ih, List.flatMap_cons]

theorem partsOfSlots_eq (slots : List Slot) :
    partsOfSlots slots = slots.flatMap Slot.parts := by
  induction slots with
  | nil => rfl
  | cons slot slots ih => rw [partsOfSlots, ih, List.flatMap_cons]

theorem partsOfMembers_eq (members : List Member) :
    partsOfMembers members = members.flatMap Member.parts := by
  induction members with
  | nil => rfl
  | cons member members ih => rw [partsOfMembers, ih, List.flatMap_cons]

theorem Slot.parts_eq (slot : Slot) : slot.parts = slot.type.parts := by
  obtain ⟨type, _, _⟩ := slot
  rfl

/-- A type is one of its parts. -/
theorem TypeExpr.mem_parts_self (type : TypeExpr) : type ∈ type.parts := by
  cases type <;> simp [TypeExpr.parts]

section AllParts

variable {P : TypeExpr → Prop}

theorem forall_parts_keyword {word : Keyword} :
    (∀ part ∈ (TypeExpr.keyword word).parts, P part) ↔ P (.keyword word) := by
  simp only [TypeExpr.parts, List.forall_mem_singleton]

theorem forall_parts_literal {value : Literal} :
    (∀ part ∈ (TypeExpr.literal value).parts, P part) ↔ P (.literal value) := by
  simp only [TypeExpr.parts, List.forall_mem_singleton]

/-- What holds of all parts of a reference holds of itself and of the parts of its arguments. -/
theorem forall_parts_reference {name : String} {args : List TypeExpr} :
    (∀ part ∈ (TypeExpr.reference name args).parts, P part) ↔
      P (.reference name args) ∧ ∀ type ∈ args, ∀ part ∈ type.parts, P part := by
  simp only [TypeExpr.parts, partsOfTypes_eq, List.forall_mem_cons, List.forall_mem_flatMap]

theorem forall_parts_array {element : TypeExpr} :
    (∀ part ∈ (TypeExpr.array element).parts, P part) ↔
      P (.array element) ∧ ∀ part ∈ element.parts, P part := by
  simp only [TypeExpr.parts, List.forall_mem_cons]

theorem forall_parts_tuple {slots : List Slot} :
    (∀ part ∈ (TypeExpr.tuple slots).parts, P part) ↔
      P (.tuple slots) ∧ ∀ slot ∈ slots, ∀ part ∈ slot.type.parts, P part := by
  simp only [TypeExpr.parts, partsOfSlots_eq, List.forall_mem_cons, List.forall_mem_flatMap,
    Slot.parts_eq]

/-- What holds of all parts of an object type holds of itself and of the parts of its members. -/
theorem forall_parts_object {members : List Member} :
    (∀ part ∈ (TypeExpr.object members).parts, P part) ↔
      P (.object members) ∧ ∀ member ∈ members, ∀ part ∈ member.parts, P part := by
  simp only [TypeExpr.parts, partsOfMembers_eq, List.forall_mem_cons, List.forall_mem_flatMap]

theorem forall_parts_union {members : List TypeExpr} :
    (∀ part ∈ (TypeExpr.union members).parts, P part) ↔
      P (.union members) ∧ ∀ type ∈ members, ∀ part ∈ type.parts, P part := by
  simp only [TypeExpr.parts, partsOfTypes_eq, List.forall_mem_cons, List.forall_mem_flatMap]

theorem forall_parts_intersection {members : List TypeExpr} :
    (∀ part ∈ (TypeExpr.intersection members).parts, P part) ↔
      P (.intersection members) ∧ ∀ type ∈ members, ∀ part ∈ type.parts, P part := by
  simp only [TypeExpr.parts, partsOfTypes_eq, List.forall_mem_cons, List.forall_mem_flatMap]

/-- What holds of all parts of a member holds of those of its type and of its key. -/
theorem forall_parts_member {member : Member} :
    (∀ part ∈ member.parts, P part) ↔
      (∀ part ∈ member.type.parts, P part) ∧
        ∀ param type, member.key = .index param type → ∀ part ∈ type.parts, P part := by
  obtain ⟨key, type, _, _, _⟩ := member
  simp only [Member.parts, List.forall_mem_append]
  cases key with
  | named name => simp [MemberKey.parts]
  | index param keyType => simp [MemberKey.parts, and_comm]

end AllParts

/-! ## What is left of a type -/

/-- A literal with numbers in normal form. -/
def Literal.plain : Literal → Literal
  | .string value => .string value
  | .number text => .number (NumberText.normalize text)
  | .bool value => .bool value

mutual

/-- What is left of a type once it has been written: comments are gone and numbers are in their
normal form. With `splice`, a union directly inside a union is gone as well, and an intersection
directly inside an intersection. -/
def TypeExpr.remains (splice : Bool) : TypeExpr → TypeExpr
  | .keyword word => .keyword word
  | .literal value => .literal value.plain
  | .reference name args => .reference name (remainsOfTypes splice args)
  | .array element => .array (element.remains splice)
  | .tuple slots => .tuple (remainsOfSlots splice slots)
  | .object members => .object (remainsOfMembers splice members)
  | .union members =>
    .union (if splice then (remainsOfTypes splice members).flatMap TypeExpr.unionMembers
      else remainsOfTypes splice members)
  | .intersection members =>
    .intersection
      (if splice then (remainsOfTypes splice members).flatMap TypeExpr.intersectionMembers
      else remainsOfTypes splice members)
  | .verbatim text => .verbatim text

/-- What is left of several types. -/
def remainsOfTypes (splice : Bool) : List TypeExpr → List TypeExpr
  | [] => []
  | type :: types => type.remains splice :: remainsOfTypes splice types

/-- What is left of a slot. -/
def Slot.remains (splice : Bool) : Slot → Slot
  | ⟨type, isOptional, isRest⟩ => ⟨type.remains splice, isOptional, isRest⟩

/-- What is left of several slots. -/
def remainsOfSlots (splice : Bool) : List Slot → List Slot
  | [] => []
  | slot :: slots => slot.remains splice :: remainsOfSlots splice slots

/-- What is left of the key of a member. -/
def MemberKey.remains (splice : Bool) : MemberKey → MemberKey
  | .named name => .named name
  | .index param type => .index param (type.remains splice)

/-- What is left of a member. -/
def Member.remains (splice : Bool) : Member → Member
  | ⟨key, type, isOptional, isReadonly, _⟩ =>
    ⟨key.remains splice, type.remains splice, isOptional, isReadonly, none⟩

/-- What is left of several members. -/
def remainsOfMembers (splice : Bool) : List Member → List Member
  | [] => []
  | member :: members => member.remains splice :: remainsOfMembers splice members

end

/-- What is left of a declaration. -/
def Declaration.remains (splice : Bool) : Declaration → Declaration
  | .typeAlias name type _ => .typeAlias name (type.remains splice) none
  | .interface name parents members _ =>
    .interface name (remainsOfTypes splice parents) (remainsOfMembers splice members) none

/-- A declaration without comments and with numbers in normal form. -/
abbrev Declaration.plain (declaration : Declaration) : Declaration := declaration.remains false

/-- What is left of types is left of each of them. -/
@[simp]
theorem remainsOfTypes_eq (splice : Bool) (types : List TypeExpr) :
    remainsOfTypes splice types = types.map (TypeExpr.remains splice) := by
  induction types with
  | nil => rfl
  | cons type types ih => rw [remainsOfTypes, ih, List.map_cons]

@[simp]
theorem remainsOfSlots_eq (splice : Bool) (slots : List Slot) :
    remainsOfSlots splice slots = slots.map (Slot.remains splice) := by
  induction slots with
  | nil => rfl
  | cons slot slots ih => rw [remainsOfSlots, ih, List.map_cons]

@[simp]
theorem remainsOfMembers_eq (splice : Bool) (members : List Member) :
    remainsOfMembers splice members = members.map (Member.remains splice) := by
  induction members with
  | nil => rfl
  | cons member members ih => rw [remainsOfMembers, ih, List.map_cons]

/-! ## Spelled types -/

/-- What is asked of the key of a member: the parameter of an index signature is an identifier. -/
def MemberKey.Spelled : MemberKey → Prop
  | .named _ => True
  | .index param _ => isIdentifier param = true

/-- What is asked of a type, the types inside aside. -/
def TypeExpr.PartSpelled : TypeExpr → Prop
  | .literal (.number text) => IsNumber text.toList
  | .reference name _ => DottedName name.toList ∧ name ∉ reservedNames
  | .object members => ∀ member ∈ members, member.key.Spelled
  | .union members => 2 ≤ members.length
  | .intersection members => 2 ≤ members.length
  | _ => True

/-- A type whose names and numbers are spelled as such, at every depth. -/
def TypeExpr.Spelled (type : TypeExpr) : Prop := ∀ part ∈ type.parts, part.PartSpelled

/-- A member whose names and numbers are spelled as such. -/
def Member.Spelled (member : Member) : Prop :=
  member.key.Spelled ∧ ∀ part ∈ member.parts, part.PartSpelled

/-- Whether the type is a text itself. -/
def TypeExpr.isVerbatim : TypeExpr → Bool
  | .verbatim _ => true
  | _ => false

/-- A type whose names and numbers are spelled as such and that holds no types that are texts. -/
def TypeExpr.Sound (type : TypeExpr) : Prop :=
  ∀ part ∈ type.parts, part.PartSpelled ∧ part.isVerbatim = false

/-- A member whose names and numbers are spelled as such and that holds no types that are texts. -/
def Member.Sound (member : Member) : Prop :=
  member.key.Spelled ∧ ∀ part ∈ member.parts, part.PartSpelled ∧ part.isVerbatim = false

/-- A union is sound if it has two members at least and these are sound. -/
theorem TypeExpr.sound_union {members : List TypeExpr} :
    (union members).Sound ↔ 2 ≤ members.length ∧ ∀ type ∈ members, type.Sound :=
  forall_parts_union.trans (and_congr_left' (and_iff_left rfl))

theorem TypeExpr.sound_intersection {members : List TypeExpr} :
    (intersection members).Sound ↔ 2 ≤ members.length ∧ ∀ type ∈ members, type.Sound :=
  forall_parts_intersection.trans (and_congr_left' (and_iff_left rfl))

/-- An object type is sound if its members are. -/
theorem TypeExpr.sound_object {members : List Member} :
    (object members).Sound ↔ ∀ member ∈ members, member.Sound :=
  forall_parts_object.trans
    ⟨fun h member hm => ⟨h.1.1 member hm, h.2 member hm⟩,
      fun h => ⟨⟨fun member hm => (h member hm).1, rfl⟩, fun member hm => (h member hm).2⟩⟩

/-! ## Types that can be written -/

/-- Whether the type is a union. -/
def TypeExpr.isUnion : TypeExpr → Bool
  | .union _ => true
  | _ => false

/-- Whether the type is an intersection. -/
def TypeExpr.isIntersection : TypeExpr → Bool
  | .intersection _ => true
  | _ => false

/-- Whether the type is an object type with members. -/
def TypeExpr.isFilledObject : TypeExpr → Bool
  | .object (_ :: _) => true
  | _ => false

/-- What is asked of the key of a member so that it can be written: the parameter of an index
signature is an identifier, and its type holds no object type with members. -/
def MemberKey.Fit : MemberKey → Prop
  | .named _ => True
  | .index param type =>
    isIdentifier param = true ∧ ∀ part ∈ type.parts, part.isFilledObject = false

/-- What is asked of a type so that it can be written, the types inside aside. With `strict`, no
intersection is directly inside an intersection. -/
def TypeExpr.Fit (strict : Bool) : TypeExpr → Prop
  | .literal (.number text) => IsNumber text.toList
  | .reference name _ => DottedName name.toList ∧ name ∉ reservedNames
  | .object members => ∀ member ∈ members, member.key.Fit
  | .union members => 2 ≤ members.length ∧ ∀ type ∈ members, type.isUnion = false
  | .intersection members =>
    2 ≤ members.length ∧ (strict = true → ∀ type ∈ members, type.isIntersection = false)
  | .verbatim _ => False
  | _ => True

/-- A type that can be written, at every depth. -/
def TypeExpr.Writable (strict : Bool) (type : TypeExpr) : Prop :=
  ∀ part ∈ type.parts, part.Fit strict

/-- A declaration that can be written: its name is an identifier, and an interface extends neither
unions nor intersections. -/
def Declaration.Writable (strict : Bool) : Declaration → Prop
  | .typeAlias name type _ => isIdentifier name = true ∧ type.Writable strict
  | .interface name parents members _ =>
    isIdentifier name = true ∧
      (∀ type ∈ parents, type.Writable strict ∧ type.hasOperator = false) ∧
      (TypeExpr.object members).Writable strict

/-- A declaration that is the same once it has been written, but for comments and the form of
numbers. -/
abbrev Declaration.Printable (declaration : Declaration) : Prop := declaration.Writable true

namespace TypeExpr

variable {strict splice : Bool}

theorem writable_literal {value : Literal} :
    (literal value).Writable strict ↔ (literal value).Fit strict := by
  simp [Writable, parts]

/-- A name can be written if it is dotted rightly and no reserved word; its arguments have to be
writable. -/
theorem writable_reference {name : String} {args : List TypeExpr} :
    (reference name args).Writable strict ↔
      (DottedName name.toList ∧ name ∉ reservedNames) ∧ ∀ type ∈ args, type.Writable strict :=
  forall_parts_reference

theorem writable_array {element : TypeExpr} :
    (array element).Writable strict ↔ element.Writable strict :=
  forall_parts_array.trans (iff_of_eq (true_and _))

theorem writable_tuple {slots : List Slot} :
    (tuple slots).Writable strict ↔ ∀ slot ∈ slots, slot.type.Writable strict :=
  forall_parts_tuple.trans (iff_of_eq (true_and _))

/-- No union can be written right inside a union: its members would be spliced in. -/
theorem writable_union {members : List TypeExpr} :
    (union members).Writable strict ↔
      (2 ≤ members.length ∧ ∀ type ∈ members, type.isUnion = false) ∧
        ∀ type ∈ members, type.Writable strict :=
  forall_parts_union

/-- An intersection can be written right inside another one unless all has to stay as it is. -/
theorem writable_intersection {members : List TypeExpr} :
    (intersection members).Writable strict ↔
      (2 ≤ members.length ∧ (strict = true → ∀ type ∈ members, type.isIntersection = false)) ∧
        ∀ type ∈ members, type.Writable strict :=
  forall_parts_intersection

/-- Nothing is known about a text that is passed on. -/
theorem not_writable_verbatim {text : String} : ¬ (verbatim text).Writable strict :=
  fun h => h _ (mem_parts_self _)

end TypeExpr

theorem TypeExpr.Fit.sound {strict : Bool} {type : TypeExpr} (h : type.Fit strict) :
    type.PartSpelled ∧ type.isVerbatim = false := by
  cases type with
  | literal value => cases value <;> exact ⟨h, rfl⟩
  | reference name args => exact ⟨h, rfl⟩
  | object members =>
    refine ⟨fun member hm => ?_, rfl⟩
    have hfit := h member hm
    cases hk : member.key with
    | named name => trivial
    | index param type =>
      rw [hk] at hfit
      exact hfit.1
  | union members => exact ⟨h.1, rfl⟩
  | intersection members => exact ⟨h.1, rfl⟩
  | verbatim text => exact h.elim
  | _ => exact ⟨trivial, rfl⟩

/-- What can be written is spelled as it should be, at every depth. -/
theorem TypeExpr.Writable.sound {strict : Bool} {type : TypeExpr} (h : type.Writable strict) :
    type.Sound :=
  fun part hp => (h part hp).sound

/-- A member that can be written. -/
def Member.Writable (strict : Bool) (member : Member) : Prop :=
  member.key.Fit ∧ ∀ part ∈ member.parts, part.Fit strict

/-- An object type can be written if its members can. -/
theorem TypeExpr.writable_object {strict : Bool} {members : List Member} :
    (object members).Writable strict ↔ ∀ member ∈ members, member.Writable strict := by
  refine forall_parts_object.trans ?_
  exact ⟨fun h member hm => ⟨h.1 member hm, h.2 member hm⟩,
    fun h => ⟨fun member hm => (h member hm).1, fun member hm => (h member hm).2⟩⟩

theorem Member.Writable.type {strict : Bool} {member : Member} (h : member.Writable strict) :
    member.type.Writable strict :=
  (forall_parts_member.1 h.2).1

/-- The key of an index signature has an identifier, and no object type with members in it. -/
theorem Member.Writable.index {strict : Bool} {member : Member} {param : String}
    {type : TypeExpr} (h : member.Writable strict) (hk : member.key = .index param type) :
    isIdentifier param = true ∧ (∀ part ∈ type.parts, part.isFilledObject = false) ∧
      type.Writable strict := by
  have hfit := h.1
  rw [hk] at hfit
  exact ⟨hfit.1, hfit.2, (forall_parts_member.1 h.2).2 param type hk⟩

/-! ## Plain types -/

/-- What is left of a type is a union just if the type was one. -/
theorem TypeExpr.isUnion_remains (splice : Bool) (type : TypeExpr) :
    (type.remains splice).isUnion = type.isUnion := by
  cases type <;> rfl

theorem TypeExpr.isIntersection_remains (splice : Bool) (type : TypeExpr) :
    (type.remains splice).isIntersection = type.isIntersection := by
  cases type <;> rfl

theorem TypeExpr.hasOperator_remains (splice : Bool) (type : TypeExpr) :
    (type.remains splice).hasOperator = type.hasOperator := by
  cases type <;> rfl

/-- Types that are no unions are the members of their union. -/
theorem flatMap_unionMembers {types : List TypeExpr} (h : ∀ type ∈ types, type.isUnion = false) :
    types.flatMap TypeExpr.unionMembers = types := by
  induction types with
  | nil => rfl
  | cons type types ih =>
    have htype : type.unionMembers = [type] := by
      have := h type (List.mem_cons_self ..)
      cases type <;> first | rfl | cases this
    rw [List.flatMap_cons, htype, ih fun t ht => h t (List.mem_cons_of_mem _ ht),
      List.singleton_append]

theorem TypeExpr.intersectionMembers_eq {type : TypeExpr} (h : type.isIntersection = false) :
    type.intersectionMembers = [type] := by
  cases type <;> first | rfl | cases h

theorem flatMap_intersectionMembers {types : List TypeExpr}
    (h : ∀ type ∈ types, type.isIntersection = false) :
    types.flatMap TypeExpr.intersectionMembers = types := by
  induction types with
  | nil => rfl
  | cons type types ih =>
    rw [List.flatMap_cons, TypeExpr.intersectionMembers_eq (h type (List.mem_cons_self ..)),
      ih fun t ht => h t (List.mem_cons_of_mem _ ht), List.singleton_append]

/-- A union of types that are no unions keeps its members apart. -/
theorem remains_union {members : List TypeExpr} (h : ∀ type ∈ members, type.isUnion = false)
    (splice : Bool) :
    (TypeExpr.union members).remains splice = .union (members.map (TypeExpr.remains splice)) := by
  have hmap : ∀ type ∈ members.map (TypeExpr.remains splice), type.isUnion = false := by
    simpa [TypeExpr.isUnion_remains] using h
  rw [TypeExpr.remains, remainsOfTypes_eq, flatMap_unionMembers hmap, ite_self]

/-- An intersection of types that are no intersections keeps its members apart. -/
theorem remains_intersection {members : List TypeExpr}
    (h : ∀ type ∈ members, type.isIntersection = false) (splice : Bool) :
    (TypeExpr.intersection members).remains splice
      = .intersection (members.map (TypeExpr.remains splice)) := by
  have hmap : ∀ type ∈ members.map (TypeExpr.remains splice), type.isIntersection = false := by
    simpa [TypeExpr.isIntersection_remains] using h
  rw [TypeExpr.remains, remainsOfTypes_eq, flatMap_intersectionMembers hmap, ite_self]

/-- A printable type has no operator directly inside one of its own kind. -/
theorem TypeExpr.remains_of_writable {type : TypeExpr} (h : type.Writable true) :
    type.remains true = type.remains false := by
  induction type using TypeExpr.ind with
  | keyword _ | literal _ | verbatim _ => rfl
  | reference name args ih =>
    have hargs := (writable_reference.1 h).2
    simp only [remains, remainsOfTypes_eq]
    rw [List.map_congr_left fun type ht => ih type ht (hargs type ht)]
  | array element ih =>
    simp only [remains]
    rw [ih (writable_array.1 h)]
  | tuple slots ih =>
    have hslots := writable_tuple.1 h
    simp only [remains, remainsOfSlots_eq]
    rw [List.map_congr_left fun slot hs => ?_]
    obtain ⟨type, _, _⟩ := slot
    rw [Slot.remains, Slot.remains, ih _ hs (hslots _ hs)]
  | object members ih =>
    have hmembers := writable_object.1 h
    simp only [remains, remainsOfMembers_eq]
    rw [List.map_congr_left fun member hm => ?_]
    have htype := (ih member hm).1 (hmembers member hm).type
    have hkey : member.key.remains true = member.key.remains false := by
      cases hk : member.key with
      | named name => rfl
      | index param type =>
        rw [MemberKey.remains, MemberKey.remains,
          (ih member hm).2 param type hk ((hmembers member hm).index hk).2.2]
    obtain ⟨key, type, _, _, _⟩ := member
    rw [Member.remains, Member.remains, htype, hkey]
  | union members ih =>
    obtain ⟨⟨-, hne⟩, hmembers⟩ := writable_union.1 h
    rw [remains_union hne, remains_union hne,
      List.map_congr_left fun type ht => ih type ht (hmembers type ht)]
  | intersection members ih =>
    obtain ⟨⟨-, hne⟩, hmembers⟩ := writable_intersection.1 h
    rw [remains_intersection (hne rfl), remains_intersection (hne rfl),
      List.map_congr_left fun type ht => ih type ht (hmembers type ht)]

/-- Of a printable declaration all is left but comments and the form of numbers. -/
theorem Declaration.remains_of_printable {declaration : Declaration} (h : declaration.Printable) :
    declaration.remains true = declaration.plain := by
  cases declaration with
  | typeAlias name type comment =>
    rw [Declaration.remains, TypeExpr.remains_of_writable h.2]
    rfl
  | interface name parents members comment =>
    have hparents : remainsOfTypes true parents = remainsOfTypes false parents := by
      rw [remainsOfTypes_eq, remainsOfTypes_eq]
      exact List.map_congr_left fun type ht => TypeExpr.remains_of_writable (h.2.1 type ht).1
    have hmembers := TypeExpr.remains_of_writable h.2.2
    simp only [TypeExpr.remains, TypeExpr.object.injEq] at hmembers
    rw [Declaration.remains, hparents, hmembers]
    rfl

end LintTypes
