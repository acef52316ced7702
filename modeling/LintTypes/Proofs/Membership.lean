import LintTypes.Json.Basic
import LintTypes.Proofs.ShortestDecimals
import LintTypes.Schema.Arrays
import Mathlib.Algebra.Field.Rat
import Mathlib.Data.List.Forall2
import Mathlib.Data.List.TakeDrop

/-!
# Values of types

`Belongs declarations value type` says that a JSON value is one of a type, where the names in the
type are those of `declarations`. Literals are compared by value: a number belongs to a number
literal if the text of the literal is read as that number, so that `1` and `1.0` are the same. An
index signature constrains the keys that no other member names, and an object type without one
admits only the keys that it names.
-/

namespace LintTypes

/-! ## Declarations -/

/-- The type that a declaration names. -/
def Declaration.type : Declaration → TypeExpr
  | .typeAlias _ type _ => type
  | .interface _ [] members _ => .object members
  | .interface _ parents members _ => .intersection (parents ++ [.object members])

@[simp] theorem Declaration.type_ofType (name : String) (type : TypeExpr)
    (comment : Option String) : (Declaration.ofType name type comment).type = type := by
  unfold Declaration.ofType
  split <;> rfl

/-- The declaration of a name. -/
def Declarations.find? (declarations : Declarations) (name : String) : Option Declaration :=
  List.find? (fun declaration => declaration.name == name) declarations

/-- A name that is declared once has its declaration. -/
theorem Declarations.find?_of_mem {declarations : Declarations}
    (hn : (declarations.map Declaration.name).Nodup) {declaration : Declaration}
    (hd : declaration ∈ declarations) :
    declarations.find? declaration.name = some declaration := by
  induction declarations with
  | nil => cases hd
  | cons first others ih =>
    obtain ⟨hfirst, hothers⟩ := List.nodup_cons.1 hn
    show List.find? _ (first :: others) = _
    rw [List.find?_cons]
    rcases List.mem_cons.1 hd with rfl | hd
    · simp
    · have hne : first.name ≠ declaration.name := by
        intro heq
        exact hfirst (List.mem_map.2 ⟨declaration, hd, heq.symm⟩)
      rw [beq_false_of_ne hne]
      exact ih hothers hd

/-! ## Belonging to a type -/

mutual

/-- The value is one of the type. -/
inductive Belongs (declarations : Declarations) : Json → TypeExpr → Prop where
  | any (value : Json) : Belongs declarations value .any
  | unknown (value : Json) : Belongs declarations value .unknown
  | null : Belongs declarations .null .null
  | boolean (value : Bool) : Belongs declarations (.bool value) .boolean
  | number (number : JsonNumber) : Belongs declarations (.number number) .number
  | string (text : String) : Belongs declarations (.string text) .string
  | anyObject (fields : List (String × Json)) :
      Belongs declarations (.object fields) (.keyword .object)
  | anyArray (items : List Json) : Belongs declarations (.array items) (.keyword .object)
  | literalString (text : String) :
      Belongs declarations (.string text) (.literal (.string text))
  | literalNumber {number : JsonNumber} {text : String} (h : NumberText.ReadAs text number.value) :
      Belongs declarations (.number number) (.literal (.number text))
  | literalBool (value : Bool) : Belongs declarations (.bool value) (.literal (.bool value))
  | reference {value : Json} {name : String} {declaration : Declaration}
      (hd : declarations.find? name = some declaration)
      (h : Belongs declarations value declaration.type) :
      Belongs declarations value (.reference name [])
  | array {items : List Json} {element : TypeExpr}
      (h : ∀ item ∈ items, Belongs declarations item element) :
      Belongs declarations (.array items) (.array element)
  | tuple {items : List Json} {slots : List Slot} (h : Fills declarations items slots) :
      Belongs declarations (.array items) (.tuple slots)
  | object {fields : List (String × Json)} {members : List Member}
      (hnamed : ∀ member ∈ members, ∀ key value, member.key = .named key →
        (key, value) ∈ fields → Belongs declarations value member.type)
      (hrequired : ∀ member ∈ members, ∀ key, member.key = .named key →
        member.isOptional = false → ∃ value, (key, value) ∈ fields)
      (hothers : ∀ member ∈ members, ∀ param type, member.key = .index param type →
        ∀ key value, (key, value) ∈ fields → (∀ other ∈ members, other.key ≠ .named key) →
          Belongs declarations value member.type)
      (hclosed : (∀ member ∈ members, ∀ param type, member.key ≠ .index param type) →
        ∀ key value, (key, value) ∈ fields → ∃ member ∈ members, member.key = .named key) :
      Belongs declarations (.object fields) (.object members)
  | union {value : Json} {members : List TypeExpr} {type : TypeExpr} (hm : type ∈ members)
      (h : Belongs declarations value type) : Belongs declarations value (.union members)
  | intersection {value : Json} {members : List TypeExpr}
      (h : ∀ type ∈ members, Belongs declarations value type) :
      Belongs declarations value (.intersection members)

/-- The values fill the slots of a tuple. -/
inductive Fills (declarations : Declarations) : List Json → List Slot → Prop where
  | nil : Fills declarations [] []
  | filled {value : Json} {values : List Json} {slot : Slot} {slots : List Slot}
      (hs : slot.isRest = false) (h : Belongs declarations value slot.type)
      (hr : Fills declarations values slots) : Fills declarations (value :: values) (slot :: slots)
  | missing {slot : Slot} {slots : List Slot} (hs : slot.isOptional = true)
      (hr : Fills declarations [] slots) : Fills declarations [] (slot :: slots)
  | rest {front back : List Json} {slot : Slot} {slots : List Slot} (hs : slot.isRest = true)
      (h : Belongs declarations (.array front) slot.type) (hr : Fills declarations back slots) :
      Fills declarations (front ++ back) (slot :: slots)

end

/-- The literal type of a number has the numbers of its value, whatever their form. -/
theorem belongs_numberLiteral {declarations : Declarations} {number other : JsonNumber} :
    Belongs declarations (.number other) (.literal (.number number.text)) ↔
      other.value = number.value := by
  rw [← JsonNumber.readAs_text_iff]
  constructor
  · rintro ⟨⟩
    assumption
  · exact .literalNumber

/-! ## Unions and intersections -/

section

variable {declarations : Declarations} {value : Json}

/-- To belong to a union is to belong to one of its members. -/
theorem belongs_union {members : List TypeExpr} :
    Belongs declarations value (.union members) ↔
      ∃ type ∈ members, Belongs declarations value type := by
  constructor
  · rintro ⟨⟩
    exact ⟨_, ‹_›, ‹_›⟩
  · rintro ⟨type, hm, h⟩
    exact .union hm h

/-- To belong to an intersection is to belong to all of its members. -/
theorem belongs_intersection {members : List TypeExpr} :
    Belongs declarations value (.intersection members) ↔
      ∀ type ∈ members, Belongs declarations value type := by
  constructor
  · rintro ⟨⟩
    assumption
  · exact .intersection

/-- A type that is no union counts as its own single member, -/
theorem belongs_unionMembers {type : TypeExpr} :
    Belongs declarations value type ↔
      ∃ member ∈ type.unionMembers, Belongs declarations value member := by
  cases type with
  | union members => exact belongs_union
  | _ => simp [TypeExpr.unionMembers]

/-- and so does one that is no intersection. -/
theorem belongs_intersectionMembers {type : TypeExpr} :
    Belongs declarations value type ↔
      ∀ member ∈ type.intersectionMembers, Belongs declarations value member := by
  cases type with
  | intersection members => exact belongs_intersection
  | _ => simp [TypeExpr.intersectionMembers]

/-- Splicing and collapsing do not change which values a union has. -/
theorem belongs_unionOf {types : List TypeExpr} :
    Belongs declarations value (.unionOf types) ↔
      ∃ type ∈ types, Belongs declarations value type := by
  have hspliced : (∃ type ∈ types, Belongs declarations value type) ↔
      ∃ member ∈ types.flatMap TypeExpr.unionMembers, Belongs declarations value member := by
    simp only [List.mem_flatMap]
    constructor
    · rintro ⟨type, hm, h⟩
      obtain ⟨member, hmember, hb⟩ := belongs_unionMembers.1 h
      exact ⟨member, ⟨type, hm, hmember⟩, hb⟩
    · rintro ⟨member, ⟨type, hm, hmember⟩, hb⟩
      exact ⟨type, hm, belongs_unionMembers.2 ⟨member, hmember, hb⟩⟩
  rw [hspliced]
  unfold TypeExpr.unionOf
  split
  · rename_i hnone
    rw [hnone]
    constructor
    · rintro ⟨⟩
    · rintro ⟨_, ⟨⟩, _⟩
  · rename_i type hone
    simp [hone]
  · exact belongs_union

/-- Splicing and collapsing do not change which values an intersection has. -/
theorem belongs_intersectionOf {types : List TypeExpr} :
    Belongs declarations value (.intersectionOf types) ↔
      ∀ type ∈ types, Belongs declarations value type := by
  have hspliced : (∀ type ∈ types, Belongs declarations value type) ↔
      ∀ member ∈ types.flatMap TypeExpr.intersectionMembers,
        Belongs declarations value member := by
    simp only [List.mem_flatMap]
    constructor
    · rintro h member ⟨type, hm, hmember⟩
      exact belongs_intersectionMembers.1 (h type hm) member hmember
    · exact fun h type hm => belongs_intersectionMembers.2 fun member hmember =>
        h member ⟨type, hm, hmember⟩
  rw [hspliced]
  unfold TypeExpr.intersectionOf
  split
  · rename_i hnone
    simp only [hnone, List.not_mem_nil, false_implies, implies_true, iff_true]
    exact .unknown value
  · rename_i type hone
    simp [hone]
  · exact belongs_intersection

end

/-! ## Arrays -/

namespace ArrayType

variable {declarations : Declarations}

/-- The items behind those with a type of their own: of the rest type, or none. -/
def RestAdmits (declarations : Declarations) (rest : Option TypeExpr) (back : List Json) : Prop :=
  match rest with
  | none => back = []
  | some type => ∀ item ∈ back, Belongs declarations item type

/-- A tuple is filled by its types in turn, and its rest type by whatever follows them. -/
theorem belongs_ofSlots {types : List TypeExpr} {rest : Option TypeExpr} {front back : List Json}
    (hf : List.Forall₂ (Belongs declarations) front types)
    (hb : RestAdmits declarations rest back) :
    Belongs declarations (.array (front ++ back)) (ofSlots types rest) := by
  refine .tuple ?_
  induction hf with
  | nil =>
    cases rest with
    | none =>
      cases hb
      exact .nil
    | some type =>
      have hfill := @Fills.rest declarations back [] (.rest type) [] rfl (.array hb) .nil
      simpa using hfill
  | cons h _ ih => exact .filled rfl h ih

/-- The items have the types at their positions, and the rest type behind them. -/
structure Positioned (declarations : Declarations) (items : List Json) (types : List TypeExpr)
    (rest : Option TypeExpr) : Prop where
  /-- Items with a type of their own have it. -/
  front : ∀ (index : Nat) item type, items[index]? = some item → types[index]? = some type →
    Belongs declarations item type
  /-- Items behind those have the rest type. -/
  back : ∀ type, rest = some type → ∀ (index : Nat) item, items[index]? = some item →
    types.length ≤ index → Belongs declarations item type

theorem Positioned.forall₂ {items : List Json} {types : List TypeExpr} {rest : Option TypeExpr}
    (h : Positioned declarations items types rest) (hl : items.length = types.length) :
    List.Forall₂ (Belongs declarations) items types := by
  rw [List.forall₂_iff_get]
  refine ⟨hl, fun index hi ht => h.front index _ _ (List.getElem?_eq_getElem hi) ?_⟩
  exact List.getElem?_eq_getElem ht

theorem getElem?_of_take {α : Type} {xs : List α} {count index : Nat} {x : α}
    (h : (xs.take count)[index]? = some x) : index < count ∧ xs[index]? = some x := by
  rw [List.getElem?_take] at h
  split at h
  · exact ⟨‹_›, h⟩
  · cases h

/-- The first items are positioned among the first types, without a rest type. -/
theorem Positioned.take {items : List Json} {types : List TypeExpr} {rest : Option TypeExpr}
    (h : Positioned declarations items types rest) (count : Nat) :
    Positioned declarations (items.take count) (types.take count) none where
  front := by
    intro index item type hi ht
    exact h.front index item type (getElem?_of_take hi).2 (getElem?_of_take ht).2
  back := by simp

/-- Positioned items belong to the tuple if all of its slots are filled, and if no item is left
without a rest type. -/
theorem Positioned.belongs_ofSlots {items : List Json} {types : List TypeExpr}
    {rest : Option TypeExpr} (h : Positioned declarations items types rest)
    (hl : types.length ≤ items.length) (hr : rest = none → items.length ≤ types.length) :
    Belongs declarations (.array items) (ofSlots types rest) := by
  rw [← List.take_append_drop types.length items]
  refine ArrayType.belongs_ofSlots ?_ ?_
  · have hfront := (h.take types.length).forall₂ (by simpa using hl)
    rwa [List.take_length] at hfront
  · cases rest with
    | none => exact List.drop_eq_nil_of_le (hr rfl)
    | some type =>
      intro item hmem
      obtain ⟨index, hindex⟩ := List.mem_iff_getElem?.1 hmem
      rw [List.getElem?_drop] at hindex
      exact h.back type rfl _ item hindex (Nat.le_add_right _ _)

/-- Completed item types cover every accepted length. -/
theorem complete_spec {filler : TypeExpr} {types : List TypeExpr} {bounds : Bounds}
    {rest : Option TypeExpr} {items : List Json}
    (hfiller : ∀ value, Belongs declarations value filler)
    (h : Positioned declarations items types rest)
    (hgreatest : ∀ greatest, bounds.greatest = some greatest → items.length ≤ greatest)
    (hclosed : rest = none → bounds.greatest = none → items.length ≤ types.length) :
    Positioned declarations items (complete filler types bounds rest).1
        (complete filler types bounds rest).2 ∧
      ((complete filler types bounds rest).2 = none →
        items.length ≤ (complete filler types bounds rest).1.length) := by
  have hfilled : ∀ rest, (∀ type, rest = some type → type = filler) →
      Positioned declarations items types rest := fun rest hr =>
    ⟨h.front, fun type hsome _ item _ _ => hr type hsome ▸ hfiller item⟩
  unfold complete
  split
  · exact ⟨h, by simp⟩
  · rename_i hnone
    refine ⟨hfilled _ ?_, fun _ => hclosed rfl hnone⟩
    intro type hsome
    split at hsome
    · exact (Option.some.inj hsome).symm
    · cases hsome
  · rename_i greatest hg
    have hle := hgreatest greatest hg
    split
    · split
      · refine ⟨⟨?_, by simp⟩, fun _ => ?_⟩
        · intro index item type hi ht
          rcases Nat.lt_or_ge index types.length with hlt | hge
          · rw [List.getElem?_append_left hlt] at ht
            exact h.front index item type hi ht
          · rw [List.getElem?_append_right hge] at ht
            rw [List.eq_of_mem_replicate (List.mem_of_getElem? ht)]
            exact hfiller item
        · simp
          omega
      · exact ⟨hfilled _ fun type hsome => (Option.some.inj hsome).symm, by simp⟩
    · exact ⟨h, fun _ => hle.trans (Nat.not_lt.1 ‹_›)⟩

/-- A tuple for each length has an array of any of these lengths. -/
theorem belongs_ofItems {filler : TypeExpr} {types : List TypeExpr} {bounds : Bounds}
    {rest : Option TypeExpr} {items : List Json}
    (hfiller : ∀ value, Belongs declarations value filler)
    (h : Positioned declarations items types rest) (hleast : bounds.least ≤ items.length)
    (hgreatest : ∀ greatest, bounds.greatest = some greatest → items.length ≤ greatest)
    (hclosed : rest = none → bounds.greatest = none → items.length ≤ types.length) :
    Belongs declarations (.array items) (ofItems filler types bounds rest) := by
  obtain ⟨hpos, hlong⟩ := complete_spec hfiller h hgreatest hclosed
  unfold ofItems
  generalize complete filler types bounds rest = completed at hpos hlong ⊢
  obtain ⟨slots, last⟩ := completed
  dsimp only at hpos hlong ⊢
  split
  · rename_i hle
    exact hpos.belongs_ofSlots (hle.trans hleast) hlong
  · rename_i hlt
    rw [belongs_unionOf]
    by_cases hl : slots.length ≤ items.length
    · exact ⟨_, by simp, hpos.belongs_ofSlots hl hlong⟩
    · refine ⟨ofSlots (slots.take items.length) none, ?_, ?_⟩
      · refine List.mem_append.2 (.inl (List.mem_map.2 ⟨items.length, ?_, rfl⟩))
        rw [List.mem_range'_1]
        omega
      · have htake := hpos.take items.length
        rw [List.take_length] at htake
        refine htake.belongs_ofSlots ?_ fun _ => ?_
        · simp
        · simp
          omega

/-- Arrays of items of one type, within the bounds. -/
theorem belongs_uniform {filler item : TypeExpr} {bounds : Bounds} {items : List Json}
    (hfiller : ∀ value, Belongs declarations value filler)
    (h : ∀ value ∈ items, Belongs declarations value item)
    (hleast : bounds.least ≤ items.length)
    (hgreatest : ∀ greatest, bounds.greatest = some greatest → items.length ≤ greatest) :
    Belongs declarations (.array items) (uniform filler item bounds) := by
  unfold uniform
  -- the lemma on tuples asks nothing of how many item types there are
  extract_lets count
  by_cases hall : (bounds.least = 0 ∧ bounds.greatest = none) ∨ maxExpansion < count
  · rw [if_pos hall]
    exact .array h
  · rw [if_neg hall]
    refine belongs_ofItems hfiller ⟨?_, ?_⟩ hleast hgreatest ?_
    · intro index value type hi ht
      rw [List.eq_of_mem_replicate (List.mem_of_getElem? ht)]
      exact h value (List.mem_of_getElem? hi)
    · intro type hrest index value hi _
      split at hrest
      · cases hrest
        exact h value (List.mem_of_getElem? hi)
      · cases hrest
    · intro hrest hnone
      rw [hnone] at hrest
      cases hrest

end ArrayType

end LintTypes
