import LintTypes.Types.Basic

/-!
# Equality of types

Whether two types are equal can be found out, and so can whether declarations are.
-/

namespace LintTypes

mutual

/-- Whether two types are equal. -/
def TypeExpr.equals : TypeExpr → TypeExpr → Bool
  | .keyword word, .keyword word' => word = word'
  | .literal value, .literal value' => value = value'
  | .reference name args, .reference name' args' => name = name' && equalTypes args args'
  | .array element, .array element' => element.equals element'
  | .tuple slots, .tuple slots' => equalSlots slots slots'
  | .object members, .object members' => equalMembers members members'
  | .union members, .union members' => equalTypes members members'
  | .intersection members, .intersection members' => equalTypes members members'
  | .verbatim text, .verbatim text' => text = text'
  | _, _ => false

/-- Whether types are equal, one by one. -/
def equalTypes : List TypeExpr → List TypeExpr → Bool
  | [], [] => true
  | type :: types, type' :: types' => type.equals type' && equalTypes types types'
  | _, _ => false

/-- Whether two slots are equal. -/
def Slot.equals : Slot → Slot → Bool
  | ⟨type, isOptional, isRest⟩, ⟨type', isOptional', isRest'⟩ =>
    type.equals type' && isOptional == isOptional' && isRest == isRest'

/-- Whether slots are equal, one by one. -/
def equalSlots : List Slot → List Slot → Bool
  | [], [] => true
  | slot :: slots, slot' :: slots' => slot.equals slot' && equalSlots slots slots'
  | _, _ => false

/-- Whether two keys of members are equal. -/
def MemberKey.equals : MemberKey → MemberKey → Bool
  | .named name, .named name' => name = name'
  | .index param type, .index param' type' => param = param' && type.equals type'
  | _, _ => false

/-- Whether two members are equal. -/
def Member.equals : Member → Member → Bool
  | ⟨key, type, isOptional, isReadonly, comment⟩,
    ⟨key', type', isOptional', isReadonly', comment'⟩ =>
    key.equals key' && type.equals type' && isOptional == isOptional' &&
      isReadonly == isReadonly' && comment == comment'

/-- Whether members are equal, one by one. -/
def equalMembers : List Member → List Member → Bool
  | [], [] => true
  | member :: members, member' :: members' => member.equals member' && equalMembers members members'
  | _, _ => false

end

mutual

/-- Types that are compared as equal are built in the same way from the same parts. -/
theorem TypeExpr.equals_iff : (a b : TypeExpr) → (a.equals b = true ↔ a = b)
  | .keyword _, b => by cases b <;> simp [TypeExpr.equals]
  | .literal _, b => by cases b <;> simp [TypeExpr.equals]
  | .reference _ args, b => by cases b <;> simp [TypeExpr.equals, equalTypes_iff args]
  | .array element, b => by cases b <;> simp [TypeExpr.equals, TypeExpr.equals_iff element]
  | .tuple slots, b => by cases b <;> simp [TypeExpr.equals, equalSlots_iff slots]
  | .object members, b => by cases b <;> simp [TypeExpr.equals, equalMembers_iff members]
  | .union members, b => by cases b <;> simp [TypeExpr.equals, equalTypes_iff members]
  | .intersection members, b => by cases b <;> simp [TypeExpr.equals, equalTypes_iff members]
  | .verbatim _, b => by cases b <;> simp [TypeExpr.equals]

theorem equalTypes_iff : (as bs : List TypeExpr) → (equalTypes as bs = true ↔ as = bs)
  | [], bs => by cases bs <;> simp [equalTypes]
  | a :: as, bs => by cases bs <;> simp [equalTypes, a.equals_iff, equalTypes_iff as]

theorem Slot.equals_iff : (a b : Slot) → (a.equals b = true ↔ a = b)
  | ⟨type, _, _⟩, ⟨_, _, _⟩ => by simp [Slot.equals, type.equals_iff, and_assoc]

theorem equalSlots_iff : (as bs : List Slot) → (equalSlots as bs = true ↔ as = bs)
  | [], bs => by cases bs <;> simp [equalSlots]
  | a :: as, bs => by cases bs <;> simp [equalSlots, a.equals_iff, equalSlots_iff as]

theorem MemberKey.equals_iff : (a b : MemberKey) → (a.equals b = true ↔ a = b)
  | .named _, b => by cases b <;> simp [MemberKey.equals]
  | .index _ type, b => by cases b <;> simp [MemberKey.equals, type.equals_iff]

theorem Member.equals_iff : (a b : Member) → (a.equals b = true ↔ a = b)
  | ⟨key, type, _, _, _⟩, ⟨_, _, _, _, _⟩ => by
    simp [Member.equals, key.equals_iff, type.equals_iff, and_assoc]

theorem equalMembers_iff : (as bs : List Member) → (equalMembers as bs = true ↔ as = bs)
  | [], bs => by cases bs <;> simp [equalMembers]
  | a :: as, bs => by cases bs <;> simp [equalMembers, a.equals_iff, equalMembers_iff as]

end

instance : DecidableEq TypeExpr := fun a b => decidable_of_iff _ (a.equals_iff b)

instance : DecidableEq Member := fun a b => decidable_of_iff _ (a.equals_iff b)

deriving instance DecidableEq for Declaration

end LintTypes
