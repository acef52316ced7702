import LintTypes.Json.Basic

/-!
# Equality of JSON values

Whether two values are equal can be found out. Objects are equal only if their keys stand in the
same order.
-/

namespace LintTypes.Json

mutual

/-- Whether two values are equal. -/
def equals : Json → Json → Bool
  | null, null => true
  | bool value, bool value' => value = value'
  | number value, number value' => value = value'
  | string value, string value' => value = value'
  | array items, array items' => equalItems items items'
  | object fields, object fields' => equalFields fields fields'
  | _, _ => false

/-- Whether values are equal, one by one. -/
def equalItems : List Json → List Json → Bool
  | [], [] => true
  | item :: items, item' :: items' => item.equals item' && equalItems items items'
  | _, _ => false

/-- Whether keys and their values are equal, one by one. -/
def equalFields : List (String × Json) → List (String × Json) → Bool
  | [], [] => true
  | (key, value) :: fields, (key', value') :: fields' =>
    key = key' && value.equals value' && equalFields fields fields'
  | _, _ => false

end

mutual

/-- The comparison is equality: of texts, of numbers with their form, and of the parts in turn. -/
theorem equals_iff : (a b : Json) → (a.equals b = true ↔ a = b)
  | null, b => by cases b <;> simp [equals]
  | bool _, b => by cases b <;> simp [equals]
  | number _, b => by cases b <;> simp [equals]
  | string _, b => by cases b <;> simp [equals]
  | array items, b => by cases b <;> simp [equals, equalItems_iff items]
  | object fields, b => by cases b <;> simp [equals, equalFields_iff fields]

theorem equalItems_iff : (as bs : List Json) → (equalItems as bs = true ↔ as = bs)
  | [], bs => by cases bs <;> simp [equalItems]
  | a :: as, bs => by cases bs <;> simp [equalItems, a.equals_iff, equalItems_iff as]

theorem equalFields_iff : (as bs : List (String × Json)) → (equalFields as bs = true ↔ as = bs)
  | [], bs => by cases bs <;> simp [equalFields]
  | (key, a) :: as, [] => by simp [equalFields]
  | (key, a) :: as, (key', b) :: bs => by simp [equalFields, a.equals_iff, equalFields_iff as]

end

instance : DecidableEq Json := fun a b => decidable_of_iff _ (a.equals_iff b)

end LintTypes.Json
