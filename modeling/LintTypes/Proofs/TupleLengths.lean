import LintTypes.Proofs.HoistingRuns
import LintTypes.Proofs.Membership

/-!
# Lengths of tuples

A list of item schemas with bounds is declared by tuples: `Form` is one of these, and it accepts the
lengths that its slots leave open. Which lengths all the tuples together accept follows from the
longest one alone (`accepts_forms_iff`), whatever the bounds are; the four cases in which slots or a
rest slot are added only decide what the longest one is.

The tuples can also be made one slot at a time, with each slice and each difference checked before
it is taken (`ofItems?`). No check ever fails.
-/

namespace LintTypes.ArrayType

/-! ## Forms -/

/-- A tuple: the types of the slots that have to be filled, and that of all further items if there
may be any. -/
structure Form where
  /-- The types of the slots. -/
  slots : List TypeExpr
  /-- The type of further items. -/
  rest : Option TypeExpr

/-- The tuple itself. -/
def Form.type (form : Form) : TypeExpr := ofSlots form.slots form.rest

/-- Arrays of the length fill the slots, and only with a rest slot they have more items. -/
def Form.Accepts (form : Form) (length : Nat) : Prop :=
  form.slots.length ≤ length ∧ (form.rest = none → length ≤ form.slots.length)

section

variable {declarations : Declarations} {form : Form} {items : List Json}

theorem Form.accepts_of_fills {slots : List TypeExpr} {rest : Option TypeExpr}
    (h : Fills declarations items (slots.map Slot.required ++ (rest.map Slot.rest).toList)) :
    Form.Accepts ⟨slots, rest⟩ items.length := by
  induction slots generalizing items with
  | nil =>
    refine ⟨Nat.zero_le _, fun hnone => ?_⟩
    have hrest : rest = none := hnone
    subst hrest
    cases h
    exact Nat.le_refl 0
  | cons type slots ih =>
    cases h with
    | filled hs hvalue hr =>
      obtain ⟨hleast, hgreatest⟩ := ih hr
      refine ⟨Nat.succ_le_succ hleast, fun hnone => Nat.succ_le_succ (hgreatest hnone)⟩
    | missing hs => cases hs
    | rest hs => cases hs

/-- Arrays of the tuple have a length that it accepts. -/
theorem Form.accepts_of_belongs (h : Belongs declarations (.array items) form.type) :
    form.Accepts items.length := by
  cases h with
  | tuple h => exact Form.accepts_of_fills h

/-- If all values have the types of the slots, nothing else is asked of an array of the tuple. -/
theorem Form.belongs_iff (hslots : ∀ type ∈ form.slots, ∀ value, Belongs declarations value type)
    (hrest : ∀ type ∈ form.rest, ∀ value, Belongs declarations value type) :
    Belongs declarations (.array items) form.type ↔ form.Accepts items.length := by
  refine ⟨Form.accepts_of_belongs, fun ⟨hleast, hgreatest⟩ => ?_⟩
  have hpositioned : Positioned declarations items form.slots form.rest := by
    refine ⟨fun index item type _ htype => ?_,
      fun type hsome index item _ _ => hrest type hsome item⟩
    exact hslots type (List.mem_of_getElem? htype) item
  exact hpositioned.belongs_ofSlots hleast hgreatest

end

/-- The type is the tuple `longest` or, if there are shorter ones, the union of all. -/
inductive Alternatives : List Form → Form → TypeExpr → Prop where
  | single (longest : Form) : Alternatives [] longest longest.type
  | several {shorter : List Form} (longest : Form) (h : shorter ≠ []) :
      Alternatives shorter longest (.union ((shorter ++ [longest]).map Form.type))

/-- The tuples of the first types, one for each length from the least one on. -/
def shorterForms (types : List TypeExpr) (least : Nat) : List Form :=
  (List.range' least (types.length - least)).map fun length => ⟨types.take length, none⟩

section

variable {filler : TypeExpr} {types : List TypeExpr} {bounds : Bounds} {rest : Option TypeExpr}
  {least : Nat} {form : Form}

theorem mem_shorterForms :
    form ∈ shorterForms types least ↔
      ∃ length, least ≤ length ∧ length < types.length ∧ form = ⟨types.take length, none⟩ := by
  simp only [shorterForms, List.mem_map, List.mem_range'_1]
  constructor
  · rintro ⟨length, ⟨hle, hlt⟩, rfl⟩
    exact ⟨length, hle, by omega, rfl⟩
  · rintro ⟨length, hle, hlt, rfl⟩
    exact ⟨length, ⟨hle, by omega⟩, rfl⟩

theorem unionOf_forms (forms : List Form) (h : 2 ≤ forms.length) :
    TypeExpr.unionOf (forms.map Form.type) = .union (forms.map Form.type) := by
  have hmembers : (forms.map Form.type).flatMap TypeExpr.unionMembers = forms.map Form.type := by
    rw [List.flatMap_map]
    exact List.flatMap_pure_eq_map Form.type forms
  unfold TypeExpr.unionOf
  rw [hmembers]
  match forms, h with
  | _ :: _ :: _, _ => rfl

/-- The items make the completed tuple and those that are shorter. -/
theorem alternatives_ofItems (filler : TypeExpr) (types : List TypeExpr) (bounds : Bounds)
    (rest : Option TypeExpr) :
    Alternatives (shorterForms (complete filler types bounds rest).1 bounds.least)
      ⟨(complete filler types bounds rest).1, (complete filler types bounds rest).2⟩
      (ofItems filler types bounds rest) := by
  unfold ofItems
  obtain ⟨slots, last⟩ := complete filler types bounds rest
  dsimp only
  by_cases hle : slots.length ≤ bounds.least
  · have hnone : shorterForms slots bounds.least = [] := by
      simp [shorterForms, Nat.sub_eq_zero_of_le hle]
    rw [if_pos hle, hnone]
    exact .single _
  · have hsome : 1 ≤ (shorterForms slots bounds.least).length := by
      simp only [shorterForms, List.length_map, List.length_range']
      omega
    have hforms : (List.range' bounds.least (slots.length - bounds.least)).map
        (fun length => ofSlots (slots.take length) none) ++ [ofSlots slots last] =
        (shorterForms slots bounds.least ++ [(⟨slots, last⟩ : Form)]).map Form.type := by
      simp [shorterForms, Form.type]
    have hunion := unionOf_forms (shorterForms slots bounds.least ++ [⟨slots, last⟩])
      (by simpa using hsome)
    rw [if_neg hle, hforms, hunion]
    exact .several _ (List.length_pos_iff.1 hsome)

/-- All the tuples together accept the lengths from the least one on, or from that of the longest
one if it is shorter; and only with a rest slot those beyond. -/
theorem accepts_forms_iff (slots : List TypeExpr) (last : Option TypeExpr) (least length : Nat) :
    (∃ form ∈ shorterForms slots least ++ [⟨slots, last⟩], form.Accepts length) ↔
      min least slots.length ≤ length ∧ (last = none → length ≤ slots.length) := by
  constructor
  · rintro ⟨form, hmem, hleast, hgreatest⟩
    rcases List.mem_append.1 hmem with hmem | hmem
    · obtain ⟨count, hle, hlt, rfl⟩ := mem_shorterForms.1 hmem
      have hcount : (slots.take count).length = count := by
        rw [List.length_take]
        omega
      have hbelow := hgreatest rfl
      simp only [hcount] at hleast hbelow
      exact ⟨by omega, fun _ => by omega⟩
    · cases List.mem_singleton.1 hmem
      exact ⟨Nat.le_trans (Nat.min_le_right ..) hleast, hgreatest⟩
  · rintro ⟨hleast, hgreatest⟩
    by_cases hlt : length < slots.length
    · refine ⟨⟨slots.take length, none⟩, ?_, ?_⟩
      · exact List.mem_append_left _ (mem_shorterForms.2 ⟨length, by omega, hlt, rfl⟩)
      · have hlength : (slots.take length).length = length := by
          rw [List.length_take]
          omega
        exact ⟨Nat.le_of_eq hlength, fun _ => Nat.le_of_eq hlength.symm⟩
    · exact ⟨⟨slots, last⟩, by simp, Nat.not_lt.1 hlt, hgreatest⟩

/-! ## The longest tuple -/

/-- The types of the items that there may be at all. -/
def upTo (greatest : Option Nat) (types : List TypeExpr) : List TypeExpr :=
  match greatest with
  | some greatest => types.take greatest
  | none => types

/-- What is said of further items. -/
inductive Additional where
  /-- There may be any. -/
  | anything
  /-- There may be none. -/
  | nothing
  /-- They have the type. -/
  | each (type : TypeExpr)

/-- The type of further items, the bounds aside. -/
def Additional.rest? (filler : TypeExpr) (greatest : Option Nat) : Additional → Option TypeExpr
  | .anything => if greatest.isNone then some filler else none
  | .nothing => none
  | .each type => some type

/-- The type that further items have in the end. -/
def Additional.element (filler : TypeExpr) : Additional → TypeExpr
  | .each type => type
  | _ => filler

/-- There may be items behind those with a type of their own, `count` many: their type is given, or
nothing bounds their number, or a bound leaves more than `maxExpansion` of them. -/
def Additional.Opens (additional : Additional) (count least : Nat) (greatest : Option Nat) : Prop :=
  (∃ type, additional = .each type) ∨
    (greatest = none ∧ (additional ≠ .nothing ∨ count < least)) ∨
    ∃ bound, greatest = some bound ∧ count + maxExpansion < bound

/-- What item types and a rest type are completed to. -/
inductive Completed (filler : TypeExpr) (types : List TypeExpr) (least : Nat) :
    Option Nat → Option TypeExpr → List TypeExpr → Option TypeExpr → Prop where
  | given (greatest : Option Nat) (type : TypeExpr) :
      Completed filler types least greatest (some type) types (some type)
  | enough (hle : least ≤ types.length) : Completed filler types least none none types none
  | lacking (hlt : types.length < least) :
      Completed filler types least none none types (some filler)
  | full {bound : Nat} (hle : bound ≤ types.length) :
      Completed filler types least (some bound) none types none
  | filled {bound : Nat} (hlt : types.length < bound) (hle : bound ≤ types.length + maxExpansion) :
      Completed filler types least (some bound) none
        (types ++ List.replicate (bound - types.length) filler) none
  | unfilled {bound : Nat} (hlt : types.length + maxExpansion < bound) :
      Completed filler types least (some bound) none types (some filler)

theorem completed (filler : TypeExpr) (types : List TypeExpr) (least : Nat) (greatest : Option Nat)
    (rest : Option TypeExpr) :
    Completed filler types least greatest rest (complete filler types ⟨least, greatest⟩ rest).1
      (complete filler types ⟨least, greatest⟩ rest).2 := by
  cases rest with
  | some type => exact .given greatest type
  | none =>
    cases greatest with
    | none =>
      show Completed _ _ _ _ _ types (if types.length < least then some filler else none)
      by_cases hlt : types.length < least
      · rw [if_pos hlt]
        exact .lacking hlt
      · rw [if_neg hlt]
        exact .enough (Nat.not_lt.1 hlt)
    | some bound =>
      simp only [complete]
      by_cases hlt : types.length < bound
      · rw [if_pos hlt]
        by_cases hle : bound - types.length ≤ maxExpansion
        · rw [if_pos hle]
          exact .filled hlt (by omega)
        · rw [if_neg hle]
          exact .unfilled (by omega)
      · rw [if_neg hlt]
        exact .full (Nat.not_lt.1 hlt)

variable {slots : List TypeExpr} {last : Option TypeExpr} {greatest : Option Nat}
  {additional : Additional}

theorem getElem?_upTo {index : Nat} {type : TypeExpr}
    (h : (upTo greatest types)[index]? = some type) : types[index]? = some type := by
  cases greatest with
  | none => exact h
  | some bound => exact (getElem?_of_take h).2

theorem length_upTo_some (bound : Nat) (types : List TypeExpr) :
    (upTo (some bound) types).length = min bound types.length :=
  List.length_take

/-- Each slot has the type of its item, or that of the filler behind the last item. -/
theorem Completed.getElem?
    (h : Completed filler (upTo greatest types) least greatest rest slots last) {index : Nat}
    {type : TypeExpr} (htype : slots[index]? = some type) : type = types[index]?.getD filler := by
  have hitem : ∀ {type}, (upTo greatest types)[index]? = some type →
      type = types[index]?.getD filler := by
    intro type hsome
    rw [getElem?_upTo hsome]
    rfl
  cases h with
  | given | enough | lacking | full | unfilled => exact hitem htype
  | @filled bound hlt =>
    rcases Nat.lt_or_ge index (upTo (some bound) types).length with hfront | hback
    · rw [List.getElem?_append_left hfront] at htype
      exact hitem htype
    · -- the bound is beyond the item types, so none of them was cut off
      have hlength := length_upTo_some bound types
      rw [List.getElem?_append_right hback] at htype
      rw [List.eq_of_mem_replicate (List.mem_of_getElem? htype),
        List.getElem?_eq_none (by omega)]
      rfl

/-- Without a rest slot the longest tuple is as long as the bound says, or else as there are
items. -/
theorem Completed.length
    (h : Completed filler (upTo greatest types) least greatest rest slots none)
    (hbounds : ∀ bound ∈ greatest, least ≤ bound) :
    slots.length = greatest.getD types.length ∧ least ≤ slots.length := by
  cases h with
  | enough hle => exact ⟨rfl, hle⟩
  | @full bound hle =>
    have hlength := length_upTo_some bound types
    have hleast := hbounds bound rfl
    rw [Option.getD_some]
    omega
  | @filled bound hlt =>
    have hleast := hbounds bound rfl
    rw [List.length_append, List.length_replicate, Option.getD_some]
    omega

theorem Additional.rest?_eq_some {type : TypeExpr}
    (h : additional.rest? filler greatest = some type) :
    additional.Opens types.length least greatest ∧ type = additional.element filler := by
  cases additional with
  | anything =>
    cases greatest with
    | none =>
      cases h
      exact ⟨.inr (.inl ⟨rfl, .inl nofun⟩), rfl⟩
    | some bound => cases h
  | nothing => cases h
  | each type =>
    cases h
    exact ⟨.inl ⟨_, rfl⟩, rfl⟩

theorem Additional.rest?_eq_none (h : additional.rest? filler greatest = none) :
    additional.element filler = filler ∧
      (additional.Opens types.length least greatest ↔
        (greatest = none ∧ types.length < least) ∨
          ∃ bound, greatest = some bound ∧ types.length + maxExpansion < bound) := by
  cases additional with
  | anything =>
    cases greatest with
    | none => cases h
    | some bound => simp [element, Opens]
  | nothing => simp [element, Opens]
  | each type => cases h

/-- There is a rest slot just when there may be items behind those with a type of their own. -/
theorem Completed.rest_iff
    (h : Completed filler (upTo greatest types) least greatest (additional.rest? filler greatest)
      slots last) :
    (last.isSome ↔ additional.Opens types.length least greatest) ∧
      ∀ type ∈ last, type = additional.element filler := by
  generalize hrest : additional.rest? filler greatest = rest at h
  cases h with
  | given type =>
    obtain ⟨hopens, htype⟩ := Additional.rest?_eq_some hrest
    refine ⟨⟨fun _ => hopens, fun _ => rfl⟩, ?_⟩
    rintro type ⟨⟩
    exact htype
  | enough hle =>
    have hclosed : ¬ additional.Opens types.length least none := by
      rw [(Additional.rest?_eq_none hrest).2]
      rintro (⟨-, hlt⟩ | ⟨_, ⟨⟩, -⟩)
      exact absurd hle (Nat.not_le.2 hlt)
    exact ⟨iff_of_false Bool.false_ne_true hclosed, nofun⟩
  | lacking hlt =>
    obtain ⟨helement, hopens⟩ := Additional.rest?_eq_none hrest
    refine ⟨iff_of_true rfl (hopens.2 (.inl ⟨rfl, hlt⟩)), ?_⟩
    rintro type ⟨⟩
    exact helement.symm
  | @full bound hle | @filled bound hle hlt =>
    have hlength := length_upTo_some bound types
    have hclosed : ¬ additional.Opens types.length least (some bound) := by
      rw [(Additional.rest?_eq_none hrest).2]
      rintro (⟨⟨⟩, -⟩ | ⟨_, ⟨⟩, hbeyond⟩)
      omega
    exact ⟨iff_of_false Bool.false_ne_true hclosed, nofun⟩
  | @unfilled bound hlt =>
    have hlength := length_upTo_some bound types
    obtain ⟨helement, hopens⟩ := Additional.rest?_eq_none hrest
    have hbeyond : types.length + maxExpansion < bound := by omega
    refine ⟨iff_of_true rfl (hopens.2 (.inr ⟨bound, rfl, hbeyond⟩)), ?_⟩
    rintro type ⟨⟩
    exact helement.symm

/-! ## Checked steps -/

/-- The first so many item types, if there are so many. -/
def first? (count : Nat) (types : List TypeExpr) : Option (List TypeExpr) :=
  if count ≤ types.length then some (types.take count) else none

/-- The difference of two numbers, if it is not negative. -/
def difference? (m n : Nat) : Option Nat := if n ≤ m then some (m - n) else none

/-- Completes item types and a rest type, with the difference checked. -/
def complete? (filler : TypeExpr) (types : List TypeExpr) (bounds : Bounds)
    (rest : Option TypeExpr) : Option (List TypeExpr × Option TypeExpr) :=
  match rest, bounds.greatest with
  | some rest, _ => some (types, some rest)
  | none, none => some (types, if types.length < bounds.least then some filler else none)
  | none, some greatest =>
    if types.length < greatest then do
      let missing ← difference? greatest types.length
      if missing ≤ maxExpansion then return (types ++ List.replicate missing filler, none)
      else return (types, some filler)
    else some (types, none)

/-- A tuple for each of the other item types, with one slot more than the one before. The one behind
the index `last` has the rest slot. -/
def grow (last : Nat) (rest : Option TypeExpr) (slots : List TypeExpr) :
    List (TypeExpr × Nat) → List TypeExpr
  | [] => []
  | (type, index) :: others =>
    ofSlots (slots ++ [type]) (if index = last then rest else none) ::
      grow last rest (slots ++ [type]) others

/-- The tuples over `types`, made slot by slot from the first ones on. -/
def ofItems? (filler : TypeExpr) (types : List TypeExpr) (bounds : Bounds)
    (rest : Option TypeExpr) : Option TypeExpr := do
  let (types, rest) ← complete? filler types bounds rest
  if types.length ≤ bounds.least then return ofSlots types rest
  else
    let slots ← first? bounds.least types
    let last ← difference? types.length 1
    let others := (types.drop bounds.least).zipIdx bounds.least
    return .unionOf (ofSlots slots none :: grow last rest slots others)

theorem complete?_eq (filler : TypeExpr) (types : List TypeExpr) (bounds : Bounds)
    (rest : Option TypeExpr) :
    complete? filler types bounds rest = some (complete filler types bounds rest) := by
  obtain ⟨least, greatest⟩ := bounds
  cases rest with
  | some type => rfl
  | none =>
    cases greatest with
    | none => rfl
    | some bound =>
      simp only [complete?, complete]
      by_cases hlt : types.length < bound
      · have hdifference : difference? bound types.length = some (bound - types.length) :=
          if_pos (Nat.le_of_lt hlt)
        rw [if_pos hlt, if_pos hlt, hdifference]
        exact (apply_ite some _ _ _).symm
      · rw [if_neg hlt, if_neg hlt]

/-- With `slots` done, the others make the tuples that are longer. -/
theorem grow_eq (last : Option TypeExpr) (slots others : List TypeExpr) :
    ofSlots slots (if others = [] then last else none) ::
        grow ((slots ++ others).length - 1) last slots (others.zipIdx slots.length) =
      (List.range' slots.length others.length).map
          (fun length => ofSlots ((slots ++ others).take length) none) ++
        [ofSlots (slots ++ others) last] := by
  induction others generalizing slots with
  | nil => simp [grow]
  | cons type others ih =>
    have hlast : slots.length = (slots ++ type :: others).length - 1 ↔ others = [] := by
      rw [List.length_append, List.length_cons, ← List.length_eq_zero_iff]
      omega
    have hslots : slots ++ type :: others = slots ++ [type] ++ others := by simp
    have hlength : (slots ++ [type]).length = slots.length + 1 := by simp
    have htail := ih (slots ++ [type])
    rw [← hslots, hlength] at htail
    rw [if_neg (List.cons_ne_nil _ _), List.length_cons, List.range'_succ, List.map_cons,
      List.take_left, List.cons_append, ← htail, List.zipIdx_cons, grow]
    simp only [hlast]

/-- Made slot by slot, the tuples are the same, and no check fails on the way. -/
theorem ofItems?_eq (filler : TypeExpr) (types : List TypeExpr) (bounds : Bounds)
    (rest : Option TypeExpr) :
    ofItems? filler types bounds rest = some (ofItems filler types bounds rest) := by
  unfold ofItems? ofItems
  rw [complete?_eq]
  obtain ⟨types, rest⟩ := complete filler types bounds rest
  show (if types.length ≤ bounds.least then _ else _) =
    some (if types.length ≤ bounds.least then _ else _)
  by_cases hle : types.length ≤ bounds.least
  · rw [if_pos hle, if_pos hle]
    rfl
  · have hfirst : first? bounds.least types = some (types.take bounds.least) :=
      if_pos (by omega)
    have hdifference : difference? types.length 1 = some (types.length - 1) := if_pos (by omega)
    have hlength : (types.take bounds.least).length = bounds.least := by
      rw [List.length_take]
      omega
    have hothers : types.drop bounds.least ≠ [] := by
      rw [Ne, List.drop_eq_nil_iff]
      exact hle
    have hgrow := grow_eq rest (types.take bounds.least) (types.drop bounds.least)
    rw [List.take_append_drop, hlength, List.length_drop, if_neg hothers] at hgrow
    rw [if_neg hle, if_neg hle, hfirst, hdifference]
    exact congrArg (fun types => some (TypeExpr.unionOf types)) hgrow

/-! ## Lists of item types -/

/-- What the tuples `shorter` and `longest` say about arrays with items of the types, with bounds on
their lengths. -/
structure Covers (filler : TypeExpr) (types : List TypeExpr) (least : Nat) (greatest : Option Nat)
    (additional : Additional) (shorter : List Form) (longest : Form) : Prop where
  /-- The longest tuple is the longest, and only it may have a rest slot. -/
  below : ∀ form ∈ shorter, form.slots.length < longest.slots.length ∧ form.rest = none
  /-- Without one, exactly the lengths within the bounds are accepted, where the number of item
  types is the bound if there is no other, -/
  closed : longest.rest = none → ∀ length,
    (∃ form ∈ shorter ++ [longest], form.Accepts length) ↔
      least ≤ length ∧ length ≤ greatest.getD types.length
  /-- and with one, all lengths from the least one on, or from that of the longest tuple. -/
  opened : longest.rest.isSome → ∀ length,
    (∃ form ∈ shorter ++ [longest], form.Accepts length) ↔
      min least longest.slots.length ≤ length
  /-- Each slot of each tuple has the type of its item, or that of the filler behind the last
  item. -/
  slots : ∀ form ∈ shorter ++ [longest], ∀ (index : Nat) type, form.slots[index]? = some type →
    type = types[index]?.getD filler
  /-- There is a rest slot just when there may be items behind those with a type of their own. -/
  rest_iff : longest.rest.isSome ↔ additional.Opens types.length least greatest
  /-- It has the type that is given for these. -/
  rest : ∀ type ∈ longest.rest, type = additional.element filler

theorem Completed.covers {rest : Option TypeExpr}
    (h : Completed filler (upTo greatest types) least greatest rest slots last)
    (hrest : rest = additional.rest? filler greatest)
    (hbounds : ∀ bound ∈ greatest, least ≤ bound) :
    Covers filler types least greatest additional (shorterForms slots least) ⟨slots, last⟩ := by
  subst hrest
  have haccepts := accepts_forms_iff slots last least
  refine ⟨fun form hmem => ?below, fun hnone length => ?closed, fun hsome length => ?opened,
    fun form hmem index type htype => ?slots, h.rest_iff.1, h.rest_iff.2⟩
  case below =>
    obtain ⟨count, -, hlt, rfl⟩ := mem_shorterForms.1 hmem
    refine ⟨?_, rfl⟩
    rw [List.length_take]
    exact Nat.lt_of_le_of_lt (Nat.min_le_left ..) hlt
  case closed =>
    have hlast : last = none := hnone
    subst hlast
    obtain ⟨hlength, hleast⟩ := h.length hbounds
    rw [haccepts, Nat.min_eq_left hleast, hlength]
    exact and_congr_right' ⟨fun h => h rfl, fun h _ => h⟩
  case opened =>
    obtain ⟨type, rfl⟩ := Option.isSome_iff_exists.1 hsome
    rw [haccepts]
    exact and_iff_left nofun
  case slots =>
    rcases List.mem_append.1 hmem with hmem | hmem
    · obtain ⟨count, -, -, rfl⟩ := mem_shorterForms.1 hmem
      exact h.getElem? (getElem?_of_take htype).2
    · cases List.mem_singleton.1 hmem
      exact h.getElem? htype

end

end LintTypes.ArrayType

namespace LintTypes.Schema

open ArrayType Hoisting

variable {context : Context} {typeOf : Node → Hoisting TypeExpr} {node items : Node}
  {h h₁ h₂ : Hoisted} {additional : Additional}

/-- What `additionalItems` says of further items. -/
inductive SaysOfFurther (typeOf : Node → Hoisting TypeExpr) (node : Node) (h : Hoisted) :
    Additional → Hoisted → Prop where
  | absent (hfield : node.field? "additionalItems" = none) :
      SaysOfFurther typeOf node h .anything h
  | anything {further : Node} (hfield : node.field? "additionalItems" = some further)
      (hv : further.value = .bool true) : SaysOfFurther typeOf node h .anything h
  | nothing {further : Node} (hfield : node.field? "additionalItems" = some further)
      (hv : further.value = .bool false) : SaysOfFurther typeOf node h .nothing h
  | each {further : Node} {fields : List (String × Json)} {type : TypeExpr} {h' : Hoisted}
      (hfield : node.field? "additionalItems" = some further) (hv : further.value = .object fields)
      (ht : typeOf further h = .done type h') : SaysOfFurther typeOf node h (.each type) h'

theorem restType_done (hfurther : SaysOfFurther typeOf node h additional h₁) (bounds : Bounds) :
    restType context typeOf node bounds h =
      .done (additional.rest? context.unknown bounds.greatest) h₁ := by
  unfold restType
  cases hfurther with
  | absent hfield =>
    rw [hfield]
    rfl
  | anything hfield hv =>
    simp only [hfield, hv]
    rfl
  | nothing hfield hv =>
    simp only [hfield, hv]
    rfl
  | each hfield hv ht =>
    simp only [hfield, hv]
    rw [bind_apply, ht]
    rfl

/-- The type of an array schema with a list of item schemas is a tuple or a union of tuples
that accept the lengths within the bounds. No slice and no difference on the way to it is out
of range. -/
theorem typeOfArray_tuples {values : List Json} {types : List TypeExpr} {least : Nat}
    {greatest : Option Nat} (hstyle : context.style.ignoreMinAndMaxItems = false)
    (hleast : ((node.value.get? "minItems").bind Json.nat?).getD 0 = least)
    (hgreatest : (node.value.get? "maxItems").bind Json.nat? = greatest)
    (hbounds : ∀ bound ∈ greatest, least ≤ bound) (hitems : node.field? "items" = some items)
    (hlist : items.value = .array values) (htypes : items.items.mapM typeOf h = .done types h₁)
    (hfurther : SaysOfFurther typeOf node h₁ additional h₂) :
    ∃ type shorter longest, typeOfArray context typeOf node h = .done type h₂ ∧
      Alternatives shorter longest type ∧
      Covers context.unknown types least greatest additional shorter longest ∧
      ofItems? context.unknown (upTo greatest types) ⟨least, greatest⟩
        (additional.rest? context.unknown greatest) = some type := by
  have hbounded : boundsOf context.style node.value = ⟨least, greatest⟩ := by
    rw [boundsOf, hstyle, hleast, hgreatest]
    rfl
  have hrun : typeOfArray context typeOf node h =
      .done (ofItems context.unknown (upTo greatest types) ⟨least, greatest⟩
        (additional.rest? context.unknown greatest)) h₂ := by
    simp only [typeOfArray, hitems, hlist, hbounded]
    rw [bind_apply, htypes]
    dsimp only
    rw [bind_apply, restType_done hfurther]
    rfl
  exact ⟨_, _, _, hrun, alternatives_ofItems _ _ _ _, (completed _ _ _ _ _).covers rfl hbounds,
    ofItems?_eq _ _ _ _⟩

/-- A string, maybe with a number behind it and then any number of truth values. -/
def textAndNumber : Json :=
  .object
    [("items", .array [.object [("type", .string "string")], .object [("type", .string "number")]]),
      ("minItems", .number (.integer 1)),
      ("additionalItems", .object [("type", .string "boolean")])]

/-- The shorter tuple is closed, and the longer one open for truth values. -/
theorem typeOfArray_tuples_textAndNumber :
    ∃ type shorter longest,
      typeOfArray ⟨textAndNumber, "Pair", {}⟩ (typeAt ⟨textAndNumber, "Pair", {}⟩ 1 [])
          (.root textAndNumber) { taken := [] } = .done type { taken := [] } ∧
      type = .union [.tuple [.required .string],
        .tuple [.required .string, .required .number, .rest .boolean]] ∧
      Alternatives shorter longest type ∧
      Covers .unknown [.string, .number] 1 none (.each .boolean) shorter longest := by
  have hbounds : ∀ bound ∈ (none : Option Nat), 1 ≤ bound := nofun
  obtain ⟨type, shorter, longest, hrun, halternatives, hcovers, -⟩ :=
    @typeOfArray_tuples ⟨textAndNumber, "Pair", {}⟩ (typeAt ⟨textAndNumber, "Pair", {}⟩ 1 [])
      (.root textAndNumber) _ { taken := [] } _ _ _ _ [.string, .number] 1 none rfl rfl rfl hbounds
      rfl rfl rfl (.each rfl rfl rfl)
  refine ⟨type, shorter, longest, hrun, ?_, halternatives, hcovers⟩
  cases hrun
  rfl

end LintTypes.Schema
