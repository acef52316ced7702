import LintTypes.Proofs.TupleLengths

/-!
# Arrays of items of one type

Bounds on the length of an array whose items all have one type are declared by tuples, or dropped.
That leaves four cases: no bound at all, too many slots, a greatest length, and a least length
alone. In the last two the slots that are made are as many as `complete` asks for
(`complete_replicate`), so that it adds none of the filler, and which lengths the tuples accept
follows from the longest one.
-/

namespace LintTypes.ArrayType

/-! ## Lengths within bounds -/

/-- The length is within the bounds. -/
def Bounds.Admits (bounds : Bounds) (length : Nat) : Prop :=
  bounds.least ≤ length ∧ ∀ bound ∈ bounds.greatest, length ≤ bound

/-- The number of slots that the bounds ask for: the greatest length unless it is zero or there is
none, and otherwise the least one. -/
def Bounds.slotCount (bounds : Bounds) : Nat :=
  match bounds.greatest with
  | some greatest => if 0 < greatest then greatest else bounds.least
  | none => bounds.least

/-- The bounds make no difference to the type: there are none, or they ask for too many slots. -/
def Bounds.Unheeded (bounds : Bounds) : Prop :=
  (bounds.least = 0 ∧ bounds.greatest = none) ∨ maxExpansion < bounds.slotCount

instance (bounds : Bounds) : Decidable bounds.Unheeded :=
  inferInstanceAs (Decidable ((bounds.least = 0 ∧ bounds.greatest = none) ∨ _))

/-- The bounds leave some length over. -/
def Bounds.Consistent (bounds : Bounds) : Prop := ∀ bound ∈ bounds.greatest, bounds.least ≤ bound

section

variable {filler item : TypeExpr} {bounds : Bounds} {slots : List TypeExpr}
  {last : Option TypeExpr} {least length index : Nat} {form : Form}

theorem Bounds.Consistent.slotCount_some {greatest : Nat}
    (h : Bounds.Consistent ⟨least, some greatest⟩) :
    Bounds.slotCount ⟨least, some greatest⟩ = greatest := by
  have hle : least ≤ greatest := h greatest rfl
  show (if 0 < greatest then greatest else least) = greatest
  split <;> omega

/-- The type of the items behind the slots: there is one only if no length is the greatest. -/
def restOf (item : TypeExpr) (bounds : Bounds) : Option TypeExpr :=
  if bounds.greatest = none then some item else none

theorem uniform_eq (filler item : TypeExpr) (bounds : Bounds) :
    uniform filler item bounds =
      if bounds.Unheeded then .array item
      else ofItems filler (List.replicate bounds.slotCount item) bounds (restOf item bounds) := by
  have hrest : (if bounds.greatest.isNone then some item else none) = restOf item bounds := by
    simp only [restOf, Option.isNone_iff_eq_none]
  rw [← hrest]
  unfold uniform
  exact if_congr Iff.rfl rfl rfl

/-- As many slots as the bounds ask for are complete. -/
theorem complete_replicate (filler item : TypeExpr) (h : bounds.Consistent) :
    complete filler (List.replicate bounds.slotCount item) bounds (restOf item bounds) =
      (List.replicate bounds.slotCount item, restOf item bounds) := by
  obtain ⟨least, greatest⟩ := bounds
  cases greatest with
  | none => rfl
  | some greatest =>
    have hcount : ¬ (List.replicate (Bounds.slotCount ⟨least, some greatest⟩) item).length <
        greatest := by
      rw [List.length_replicate, h.slotCount_some]
      exact Nat.lt_irrefl greatest
    exact if_neg hcount

/-- The tuples accept the lengths within the bounds. -/
theorem admits_iff (h : bounds.Consistent) (length : Nat) :
    (∃ form ∈ shorterForms (List.replicate bounds.slotCount item) bounds.least ++
        [⟨List.replicate bounds.slotCount item, restOf item bounds⟩], form.Accepts length) ↔
      bounds.Admits length := by
  rw [accepts_forms_iff, List.length_replicate]
  obtain ⟨least, greatest⟩ := bounds
  cases greatest with
  | none =>
    have hleast : min least least ≤ length ↔ least ≤ length := by rw [Nat.min_self]
    exact and_congr hleast ⟨fun _ => nofun, fun _ => nofun⟩
  | some greatest =>
    have hle : least ≤ greatest := h greatest rfl
    rw [h.slotCount_some, Nat.min_eq_left hle]
    refine and_congr_right' ⟨fun hlength => ?_, fun hlength _ => hlength greatest rfl⟩
    rintro bound ⟨⟩
    exact hlength rfl

/-! ## One tuple for each length -/

theorem getElem?_shorterForms (h : (shorterForms slots least)[index]? = some form) :
    index < slots.length - least ∧ form = ⟨slots.take (least + index), none⟩ := by
  rw [shorterForms, List.getElem?_map] at h
  obtain ⟨length, hlength, rfl⟩ := Option.map_eq_some_iff.1 h
  obtain ⟨hlt, rfl⟩ := List.getElem?_eq_some_iff.1 hlength
  rw [List.length_range'] at hlt
  refine ⟨hlt, ?_⟩
  rw [List.getElem_range', Nat.one_mul]

/-- Which tuple accepts a length is told by the length. -/
theorem index_of_accepts
    (h : (shorterForms slots least ++ [⟨slots, last⟩])[index]? = some form)
    (ha : form.Accepts length) : index = min (length - least) (slots.length - least) := by
  have hcount : (shorterForms slots least).length = slots.length - least := by
    rw [shorterForms, List.length_map, List.length_range']
  obtain ⟨hleast, hgreatest⟩ := ha
  rcases Nat.lt_or_ge index (shorterForms slots least).length with hfront | hback
  · rw [List.getElem?_append_left hfront] at h
    obtain ⟨hlt, rfl⟩ := getElem?_shorterForms h
    have htake : (slots.take (least + index)).length = least + index := by
      rw [List.length_take]
      omega
    have hbelow := hgreatest rfl
    simp only [htake] at hleast hbelow
    omega
  · rw [List.getElem?_append_right hback, List.getElem?_singleton] at h
    split at h
    · cases h
      dsimp only at hleast
      omega
    · cases h

/-- A length that is accepted at all is accepted by one tuple only. -/
theorem existsUnique_accepts
    (h : ∃ form ∈ shorterForms slots least ++ [⟨slots, last⟩], Form.Accepts form length) :
    ∃! index : Nat, ∃ form : Form,
      (shorterForms slots least ++ [⟨slots, last⟩])[index]? = some form ∧ form.Accepts length := by
  obtain ⟨form, hmem, haccepts⟩ := h
  obtain ⟨index, hindex⟩ := List.mem_iff_getElem?.1 hmem
  refine ⟨index, ⟨form, hindex, haccepts⟩, ?_⟩
  rintro other ⟨form', hother, haccepts'⟩
  rw [index_of_accepts hother haccepts', index_of_accepts hindex haccepts]

/-! ## What the tuples say -/

/-- What the tuples `shorter` and `longest` say about arrays of items of one type. -/
structure Homogeneous (item : TypeExpr) (bounds : Bounds) (shorter : List Form) (longest : Form) :
    Prop where
  /-- They accept the lengths within the bounds. -/
  lengths : ∀ length, (∃ form ∈ shorter ++ [longest], form.Accepts length) ↔ bounds.Admits length
  /-- Each of these lengths is accepted by one of them only. -/
  once : ∀ length, bounds.Admits length →
    ∃! index : Nat, ∃ form : Form, (shorter ++ [longest])[index]? = some form ∧ form.Accepts length
  /-- Each slot has the type of the items. -/
  slots : ∀ form ∈ shorter ++ [longest], ∀ type ∈ form.slots, type = item
  /-- Only the longest one may have a rest slot. -/
  closed : ∀ form ∈ shorter, form.rest = none
  /-- It has one, for items of the same type, just when no length is the greatest. -/
  rest : longest.rest = restOf item bounds

theorem homogeneous_replicate (item : TypeExpr) (h : bounds.Consistent) :
    Homogeneous item bounds (shorterForms (List.replicate bounds.slotCount item) bounds.least)
      ⟨List.replicate bounds.slotCount item, restOf item bounds⟩ where
  lengths := admits_iff h
  once length hadmits := existsUnique_accepts ((admits_iff h length).2 hadmits)
  slots := by
    intro form hmem type htype
    rcases List.mem_append.1 hmem with hmem | hmem
    · obtain ⟨count, -, -, rfl⟩ := mem_shorterForms.1 hmem
      exact List.eq_of_mem_replicate (List.mem_of_mem_take htype)
    · cases List.mem_singleton.1 hmem
      exact List.eq_of_mem_replicate htype
  closed := by
    intro form hmem
    obtain ⟨count, -, -, rfl⟩ := mem_shorterForms.1 hmem
    rfl
  rest := rfl

/-! ## Values -/

variable {declarations : Declarations} {value : Json} {items : List Json} {shorter : List Form}
  {longest : Form} {type : TypeExpr}

theorem belongs_of_fills {rest : Option TypeExpr} (hslots : ∀ type ∈ slots, type = item)
    (hrest : ∀ type ∈ rest, type = item)
    (h : Fills declarations items (slots.map Slot.required ++ (rest.map Slot.rest).toList)) :
    ∀ value ∈ items, Belongs declarations value item := by
  induction slots generalizing items with
  | nil =>
    cases rest with
    | none =>
      cases h
      exact nofun
    | some type =>
      cases hrest type rfl
      cases h with
      | filled hs => cases hs
      | missing hs => cases hs
      | rest hs hfront hback =>
        cases hback
        cases hfront with
        | array hfront => simpa using hfront
  | cons type slots ih =>
    obtain ⟨rfl, hslots⟩ := List.forall_mem_cons.1 hslots
    cases h with
    | filled hs hvalue hr => exact List.forall_mem_cons.2 ⟨hvalue, ih hslots hr⟩
    | missing hs => cases hs
    | rest hs => cases hs

/-- If all types in a tuple are the same, its values are the arrays of such items that have a length
it accepts. -/
theorem Form.belongs_iff_of_uniform (hslots : ∀ type ∈ form.slots, type = item)
    (hrest : ∀ type ∈ form.rest, type = item) :
    Belongs declarations value form.type ↔
      ∃ items, value = .array items ∧ form.Accepts items.length ∧
        ∀ value ∈ items, Belongs declarations value item := by
  constructor
  · intro h
    have haccepts := @Form.accepts_of_belongs declarations form
    cases h with
    | tuple hfills =>
      exact ⟨_, rfl, haccepts (.tuple hfills), belongs_of_fills hslots hrest hfills⟩
  · rintro ⟨items, rfl, ⟨hleast, hgreatest⟩, hitems⟩
    have hpositioned : Positioned declarations items form.slots form.rest := by
      refine ⟨fun index value type hvalue htype => ?_, fun type hsome index value hvalue _ => ?_⟩
      · rw [hslots type (List.mem_of_getElem? htype)]
        exact hitems value (List.mem_of_getElem? hvalue)
      · rw [hrest type hsome]
        exact hitems value (List.mem_of_getElem? hvalue)
    exact hpositioned.belongs_ofSlots hleast hgreatest

theorem Alternatives.belongs_iff (h : Alternatives shorter longest type) :
    Belongs declarations value type ↔
      ∃ form ∈ shorter ++ [longest], Belongs declarations value form.type := by
  cases h with
  | single => simp
  | several longest hne =>
    simp only [belongs_union, List.mem_map, exists_exists_and_eq_and]

/-- The values of the tuples are the arrays of such items with a length within the bounds. -/
theorem Homogeneous.belongs_iff (h : Homogeneous item bounds shorter longest)
    (ha : Alternatives shorter longest type) :
    Belongs declarations value type ↔
      ∃ items, value = .array items ∧ bounds.Admits items.length ∧
        ∀ value ∈ items, Belongs declarations value item := by
  have hrest : ∀ form ∈ shorter ++ [longest], ∀ type ∈ form.rest, type = item := by
    intro form hmem type htype
    rcases List.mem_append.1 hmem with hmem | hmem
    · rw [h.closed form hmem] at htype
      cases htype
    · cases List.mem_singleton.1 hmem
      rw [h.rest, restOf] at htype
      split at htype
      · exact (Option.some.inj htype).symm
      · cases htype
  rw [ha.belongs_iff]
  constructor
  · rintro ⟨form, hmem, hvalue⟩
    obtain ⟨items, rfl, haccepts, hitems⟩ :=
      (Form.belongs_iff_of_uniform (h.slots form hmem) (hrest form hmem)).1 hvalue
    exact ⟨items, rfl, (h.lengths _).1 ⟨form, hmem, haccepts⟩, hitems⟩
  · rintro ⟨items, rfl, hadmits, hitems⟩
    obtain ⟨form, hmem, haccepts⟩ := (h.lengths _).2 hadmits
    exact ⟨form, hmem, (Form.belongs_iff_of_uniform (h.slots form hmem) (hrest form hmem)).2
      ⟨items, rfl, haccepts, hitems⟩⟩

theorem Alternatives.ne_array (h : Alternatives shorter longest type) (element : TypeExpr) :
    type ≠ .array element := by
  cases h with
  | single => exact nofun
  | several => exact nofun

end

end LintTypes.ArrayType

namespace LintTypes.Schema

open ArrayType Hoisting

variable {context : Context} {typeOf : Node → Hoisting TypeExpr} {node : Node} {h h₁ : Hoisted}
  {item : TypeExpr} {bounds : Bounds}

/-- What `items` says of all items together: they have a type of their own, or may be anything. -/
inductive SaysOfItems (context : Context) (typeOf : Node → Hoisting TypeExpr) (node : Node)
    (h : Hoisted) : TypeExpr → Hoisted → Prop where
  | absent (hfield : node.field? "items" = none) :
      SaysOfItems context typeOf node h context.unknown h
  | schema {items : Node} {fields : List (String × Json)} {type : TypeExpr} {h' : Hoisted}
      (hfield : node.field? "items" = some items) (hv : items.value = .object fields)
      (ht : typeOf items h = .done type h') : SaysOfItems context typeOf node h type h'
  | constant {items : Node} {flag : Bool} {type : TypeExpr} {h' : Hoisted}
      (hfield : node.field? "items" = some items) (hv : items.value = .bool flag)
      (ht : typeOf items h = .done type h') : SaysOfItems context typeOf node h type h'

theorem typeOfArray_done (hbounds : boundsOf context.style node.value = bounds)
    (hitems : SaysOfItems context typeOf node h item h₁) :
    typeOfArray context typeOf node h = .done (uniform context.unknown item bounds) h₁ := by
  subst hbounds
  cases hitems with
  | absent hfield =>
    simp only [typeOfArray, hfield]
    rfl
  | schema hfield hv ht | constant hfield hv ht =>
    simp only [typeOfArray, hfield, hv]
    rw [bind_apply, ht]
    rfl

/-- Arrays whose items all have one type are declared as such if there is no bound on their length
or a bound that asks for too many slots, and otherwise by tuples for exactly the lengths within the
bounds, of which each accepts its own. -/
theorem typeOfArray_uniform {least : Nat} {greatest : Option Nat}
    (hstyle : context.style.ignoreMinAndMaxItems = false)
    (hleast : ((node.value.get? "minItems").bind Json.nat?).getD 0 = least)
    (hgreatest : (node.value.get? "maxItems").bind Json.nat? = greatest)
    (hbounds : ∀ bound ∈ greatest, least ≤ bound)
    (hitems : SaysOfItems context typeOf node h item h₁) :
    ∃ type, typeOfArray context typeOf node h = .done type h₁ ∧
      (type = .array item ↔ Bounds.Unheeded ⟨least, greatest⟩) ∧
      (type ≠ .array item → ∃ shorter longest, Alternatives shorter longest type ∧
        Homogeneous item ⟨least, greatest⟩ shorter longest ∧
        ∀ declarations value, Belongs declarations value type ↔
          ∃ items, value = .array items ∧ Bounds.Admits ⟨least, greatest⟩ items.length ∧
            ∀ value ∈ items, Belongs declarations value item) := by
  have hbounded : boundsOf context.style node.value = ⟨least, greatest⟩ := by
    rw [boundsOf, hstyle, hleast, hgreatest]
    rfl
  have hconsistent : Bounds.Consistent ⟨least, greatest⟩ := hbounds
  refine ⟨_, typeOfArray_done hbounded hitems, ?_⟩
  rw [uniform_eq]
  by_cases hunheeded : Bounds.Unheeded ⟨least, greatest⟩
  · rw [if_pos hunheeded]
    exact ⟨iff_of_true rfl hunheeded, fun hne => absurd rfl hne⟩
  · rw [if_neg hunheeded]
    have halternatives := alternatives_ofItems context.unknown
      (List.replicate (Bounds.slotCount ⟨least, greatest⟩) item) ⟨least, greatest⟩
      (restOf item ⟨least, greatest⟩)
    rw [complete_replicate _ _ hconsistent] at halternatives
    have hforms := homogeneous_replicate item hconsistent
    refine ⟨iff_of_false (halternatives.ne_array item) hunheeded, fun _ =>
      ⟨_, _, halternatives, hforms, fun declarations value => hforms.belongs_iff halternatives⟩⟩

/-- At most two strings. -/
def fewStrings : Json :=
  .object
    [("items", .object [("type", .string "string")]), ("maxItems", .number (.integer 2))]

/-- Three tuples, none of them open. -/
theorem typeOfArray_uniform_fewStrings :
    ∃ type, typeOfArray ⟨fewStrings, "Few", {}⟩ (typeAt ⟨fewStrings, "Few", {}⟩ 1 [])
          (.root fewStrings) { taken := [] } = .done type { taken := [] } ∧
      type = .union [.tuple [], .tuple [.required .string],
        .tuple [.required .string, .required .string]] ∧
      ∃ shorter longest, Alternatives shorter longest type ∧
        Homogeneous .string ⟨0, some 2⟩ shorter longest := by
  have hbounds : ∀ bound ∈ some 2, (0 : Nat) ≤ bound := fun _ _ => Nat.zero_le _
  obtain ⟨type, hrun, harray, htuples⟩ :=
    @typeOfArray_uniform ⟨fewStrings, "Few", {}⟩ (typeAt ⟨fewStrings, "Few", {}⟩ 1 [])
      (.root fewStrings) { taken := [] } _ .string 0 (some 2) rfl rfl rfl hbounds
      (.schema rfl rfl rfl)
  have hne : type ≠ .array .string := by
    rw [Ne, harray]
    decide
  obtain ⟨shorter, longest, halternatives, hforms, -⟩ := htuples hne
  refine ⟨type, hrun, ?_, shorter, longest, halternatives, hforms⟩
  cases hrun
  rfl

end LintTypes.Schema
