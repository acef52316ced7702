import LintTypes.Proofs.RelatedTypes
import LintTypes.Proofs.SchemaRuns

/-!
# Schemas side by side

What becomes of two schemas that say the same in different places or in a different way. The types
of the schemas inside may be related by any relation that all ways to put types together respect;
then the types of the two schemas are related as well.

`MeetBoth` says this of two computations by their demands alone: they ask for corresponding schemas
one after the other, and related answers make related results. So nothing has to be known about the
runs, which may name and declare different things. The second computation may ask for less: where it
finds a truth value at once that the first one has to ask for, or where it is refused what the first
one asks for in vain.
-/

namespace LintTypes.Schema

open Hoisting

/-! ## Computations side by side -/

/-- Values that are no schemas. -/
def NoSchema (value : Json) : Prop :=
  (∀ fields, value ≠ .object fields) ∧ ∀ truth, value ≠ .bool truth

/-- The demands correspond to each other. -/
inductive Demand.Pair (child : Node → Node → Prop) : Demand → Demand → Prop where
  | inner {node node' : Node} (h : child node node') : Pair child (.inner node) (.inner node')
  | referred (reference : String) : Pair child (.referred reference) (.referred reference)

section Computations

variable (related : TypeExpr → TypeExpr → Prop) (child : Node → Node → Prop) (unknown' : TypeExpr)

/-- The computations meet corresponding demands one after the other, and with related types they
come to related results. `unknown'` is the type that the second one has for `true`. -/
inductive MeetBoth {α β : Type} (result : α → β → Prop) :
    List Demand → List Demand → Asking α → Asking β → Prop where
  | pure {a : α} {b : β} (h : result a b) :
      MeetBoth result [] [] (fun _ _ => Pure.pure a) fun _ _ => Pure.pure b
  | refused (problem problem' : SchemaProblem) (rest rest' : List Demand) :
      MeetBoth result (.refused problem :: rest) (.refused problem' :: rest')
        (fun _ _ => .fail problem) fun _ _ => .fail problem'
  | next {demand demand' : Demand} {rest rest' : List Demand} {f : TypeExpr → Asking α}
      {f' : TypeExpr → Asking β} (hd : demand.Pair child demand')
      (hm : ∀ type, Meets rest (f type))
      (h : ∀ type type', related type type' → MeetBoth result rest rest' (f type) (f' type')) :
      MeetBoth result (demand :: rest) (demand' :: rest')
        (fun typeOf follow => demand.meet typeOf follow >>= fun type => f type typeOf follow)
        fun typeOf follow => demand'.meet typeOf follow >>= fun type => f' type typeOf follow
  | known {node node' : Node} {rest asked' : List Demand} {f : TypeExpr → Asking α} {y : Asking β}
      (hd : child node node') (ho : ∃ fields, node.value = .object fields)
      (hv : node'.value = .bool true) (hm : ∀ type, Meets rest (f type))
      (h : ∀ type, related type unknown' → MeetBoth result rest asked' (f type) y) :
      MeetBoth result (.inner node :: rest) asked'
        (fun typeOf follow => typeOf node >>= fun type => f type typeOf follow) y
  | stopped {node node' : Node} (rest rest' : List Demand) {f : TypeExpr → Asking α}
      (problem' : SchemaProblem) (hd : child node node')
      (ho : ∃ fields, node.value = .object fields) (hv : NoSchema node'.value)
      (hm : ∀ type, Meets rest (f type)) :
      MeetBoth result (.inner node :: rest) (.refused problem' :: rest')
        (fun typeOf follow => typeOf node >>= fun type => f type typeOf follow)
        fun _ _ => .fail problem'

variable {related child unknown'} {α β γ δ ι κ : Type} {result : α → β → Prop}
  {asked asked' others others' : List Demand} {x : Asking α} {y : Asking β}

/-- The former of two sides meets its demands. -/
theorem MeetBoth.meets (hx : MeetBoth related child unknown' result asked asked' x y) :
    Meets asked x := by
  cases hx with
  | pure => exact .pure _
  | refused problem _ rest => exact .refused problem rest
  | next _ hm => exact .next _ hm
  | known _ _ _ hm => exact .next (.inner _) hm
  | stopped _ _ _ _ _ _ hm => exact .next (.inner _) hm

/-- Demands that are paired are met by types that are related. -/
theorem MeetBoth.one {demand demand' : Demand} (hd : demand.Pair child demand') :
    MeetBoth related child unknown' related [demand] [demand']
      (fun typeOf follow => demand.meet typeOf follow)
      fun typeOf follow => demand'.meet typeOf follow := by
  have h : MeetBoth related child unknown' related [demand] [demand'] _ _ :=
    .next hd (fun type => .pure type) fun _ _ h => .pure h
  simpa using h

/-- Two steps on both sides, the second of them with related results of the first. On the left the
second step has to meet its demands also where the right never comes to it. -/
theorem MeetBoth.bind {after : γ → δ → Prop} {f : α → Asking γ} {g : β → Asking δ}
    (hx : MeetBoth related child unknown' result asked asked' x y)
    (hm : ∀ a, Meets others (f a))
    (hf : ∀ a b, result a b → MeetBoth related child unknown' after others others' (f a) (g b)) :
    MeetBoth related child unknown' after (asked ++ others) (asked' ++ others')
      (fun typeOf follow => x typeOf follow >>= fun a => f a typeOf follow)
      fun typeOf follow => y typeOf follow >>= fun b => g b typeOf follow := by
  induction hx with
  | pure h => simpa using hf _ _ h
  | refused problem problem' rest rest' => exact .refused problem problem' _ _
  | next hd hrest _ ih =>
    simp only [bind_assoc]
    exact .next hd (fun type => (hrest type).bind hm) ih
  | known hd ho hv hrest _ ih =>
    simp only [bind_assoc]
    exact .known hd ho hv (fun type => (hrest type).bind hm) ih
  | stopped rest rest' problem' hd ho hv hrest =>
    simp only [bind_assoc]
    exact .stopped _ _ problem' hd ho hv fun type => (hrest type).bind hm

/-- Results on both sides may be turned into others that are related. -/
theorem MeetBoth.map {after : γ → δ → Prop} {f : α → γ} {g : β → δ}
    (hx : MeetBoth related child unknown' result asked asked' x y)
    (hf : ∀ a b, result a b → after (f a) (g b)) :
    MeetBoth related child unknown' after asked asked'
      (fun typeOf follow => x typeOf follow >>= fun a => Pure.pure (f a))
      fun typeOf follow => y typeOf follow >>= fun b => Pure.pure (g b) := by
  have h : MeetBoth related child unknown' after (asked ++ []) (asked' ++ []) _ _ :=
    hx.bind (fun a => Meets.pure (f a)) fun a b h => .pure (hf a b h)
  rwa [List.append_nil, List.append_nil] at h

theorem MeetBoth.imp {after : α → β → Prop}
    (hx : MeetBoth related child unknown' result asked asked' x y)
    (hr : ∀ a b, result a b → after a b) :
    MeetBoth related child unknown' after asked asked' x y := by
  have h : MeetBoth related child unknown' after asked asked' _ _ :=
    hx.map (f := fun a => a) (g := fun b => b) hr
  simpa using h

/-- Inputs in pairs, met one by one. -/
theorem MeetBoth.mapM {f : ι → Asking α} {g : κ → Asking β} {each : ι → List Demand}
    {each' : κ → List Demand} {inputs : List ι} {inputs' : List κ}
    (h : List.Forall₂ (fun i j => MeetBoth related child unknown' result (each i) (each' j) (f i)
      (g j)) inputs inputs') :
    MeetBoth related child unknown' (List.Forall₂ result) (inputs.flatMap each)
      (inputs'.flatMap each') (fun typeOf follow => inputs.mapM fun i => f i typeOf follow)
      fun typeOf follow => inputs'.mapM fun j => g j typeOf follow := by
  induction h with
  | nil => exact .pure .nil
  | cons h _ ih =>
    simp only [List.mapM_cons, List.flatMap_cons]
    exact h.bind (fun _ => ih.meets.map) fun _ _ hab => ih.map fun _ _ hrest => .cons hab hrest

/-- The computation is refused, or asks in vain. -/
def Unmet (child : Node → Node → Prop) (asked : List Demand) : Prop :=
  (∃ problem, .refused problem ∈ asked) ∨
    ∃ node node', .inner node ∈ asked ∧ child node node' ∧ NoSchema node'.value

/-- If one of the demands is not met on the right, then neither are more of them. -/
theorem Unmet.mono (hsub : asked ⊆ others) (h : Unmet child asked) : Unmet child others := by
  rcases h with ⟨problem, hmem⟩ | ⟨node, node', hmem, hd, hv⟩
  · exact .inl ⟨problem, hsub hmem⟩
  · exact .inr ⟨node, node', hsub hmem, hd, hv⟩

/-- What the second computation asks for, the first one asks for as well, if it is not stopped. -/
theorem MeetBoth.right (hx : MeetBoth related child unknown' result asked asked' x y)
    (hr : related unknown' unknown') {demand' : Demand} (hd : demand' ∈ asked') :
    (∃ demand ∈ asked, demand.Pair child demand') ∨ Unmet child asked := by
  induction hx with
  | pure => cases hd
  | refused problem => exact .inr (.inl ⟨problem, List.mem_cons_self ..⟩)
  | @next demand _ rest rest' f f' hpair hm h ih =>
    rcases List.mem_cons.1 hd with rfl | hd
    · exact .inl ⟨demand, List.mem_cons_self .., hpair⟩
    · rcases ih _ _ hr hd with ⟨other, hmem, hother⟩ | hunmet
      · exact .inl ⟨other, List.mem_cons_of_mem _ hmem, hother⟩
      · exact .inr (hunmet.mono (List.subset_cons_self _ _))
  | @known node node' rest asked' f y hchild ho hv hm h ih =>
    rcases ih _ hr hd with ⟨other, hmem, hother⟩ | hunmet
    · exact .inl ⟨other, List.mem_cons_of_mem _ hmem, hother⟩
    · exact .inr (hunmet.mono (List.subset_cons_self _ _))
  | stopped rest rest' problem' hchild ho hv =>
    exact .inr (.inr ⟨_, _, List.mem_cons_self .., hchild, hv⟩)

/-- What the first computation asks for, the second one asks for as well or knows, if it is not
refused anything. -/
theorem MeetBoth.left (hx : MeetBoth related child unknown' result asked asked' x y)
    (hr : related unknown' unknown') {demand : Demand} (hd : demand ∈ asked) :
    (∃ demand' ∈ asked', demand.Pair child demand') ∨
      (∃ node node', demand = .inner node ∧ child node node' ∧ node'.value = .bool true) ∨
      ∃ problem, .refused problem ∈ asked' := by
  induction hx with
  | pure => cases hd
  | refused _ problem' => exact .inr (.inr ⟨problem', List.mem_cons_self ..⟩)
  | @next _ demand' rest rest' f f' hpair hm h ih =>
    rcases List.mem_cons.1 hd with rfl | hd
    · exact .inl ⟨demand', List.mem_cons_self .., hpair⟩
    · rcases ih _ _ hr hd with ⟨other, hmem, hother⟩ | hknown | ⟨problem, hmem⟩
      · exact .inl ⟨other, List.mem_cons_of_mem _ hmem, hother⟩
      · exact .inr (.inl hknown)
      · exact .inr (.inr ⟨problem, List.mem_cons_of_mem _ hmem⟩)
  | @known node node' rest asked' f y hchild ho hv hm h ih =>
    rcases List.mem_cons.1 hd with rfl | hd
    · exact .inr (.inl ⟨node, node', rfl, hchild, hv⟩)
    · exact ih _ hr hd
  | stopped rest rest' problem' => exact .inr (.inr ⟨problem', List.mem_cons_self ..⟩)

/-- If both computations are done and the first one ends early, their results are related, as far as
the types are that their demands are met with early. -/
theorem MeetBoth.done (early : Hoisted → Prop) {typeOf typeOf' : Node → Hoisting TypeExpr}
    {follow follow' : String → Hoisting TypeExpr}
    (hx : MeetBoth related child unknown' result asked asked' x y)
    (hback : ∀ demand ∈ asked, ∀ h type h', demand.meet typeOf follow h = .done type h' →
      early h' → early h)
    (hpair : ∀ demand ∈ asked, ∀ demand', demand.Pair child demand' → ∀ h type h' k type' k',
      demand.meet typeOf follow h = .done type h' → early h' →
      demand'.meet typeOf' follow' k = .done type' k' → related type type')
    (hknown : ∀ node node', .inner node ∈ asked → child node node' → node'.value = .bool true →
      ∀ h type h', typeOf node h = .done type h' → early h' → related type unknown')
    {h h' k k' : Hoisted} {a : α} {b : β} (hr : x typeOf follow h = .done a h') (he : early h')
    (hr' : y typeOf' follow' k = .done b k') : result a b := by
  have hearly : ∀ {rest : List Demand} {z : Asking α} {h₁ : Hoisted}, Meets rest z →
      (∀ demand ∈ rest, demand ∈ asked) → z typeOf follow h₁ = .done a h' → early h₁ :=
    fun hm hsub hr => (hm.between early (fun _ => True)
      (fun demand hd => hback demand (hsub demand hd)) (fun _ _ _ _ _ _ _ _ => trivial) hr he).1
  clear hback
  induction hx generalizing h k with
  | pure hab =>
    cases hr
    cases hr'
    exact hab
  | refused => cases hr
  | next hd hm _ ih =>
    obtain ⟨hfirst, hothers⟩ := List.forall_mem_cons.1 hpair
    obtain ⟨type, h₁, hdone, hr⟩ := bind_done hr
    obtain ⟨type', k₁, hdone', hr'⟩ := bind_done hr'
    have he₁ := hearly (hm type) (fun _ hd => List.mem_cons_of_mem _ hd) hr
    refine ih type type' (hfirst _ hd _ _ _ _ _ _ hdone he₁ hdone') hothers ?_ hr hr' ?_
    · exact fun node node' hmem => hknown node node' (List.mem_cons_of_mem _ hmem)
    · exact fun hm hsub => hearly hm fun demand hd => List.mem_cons_of_mem _ (hsub demand hd)
  | known hchild ho hv hm _ ih =>
    obtain ⟨type, h₁, hdone, hr⟩ := bind_done hr
    have he₁ := hearly (hm type) (fun _ hd => List.mem_cons_of_mem _ hd) hr
    refine ih type (hknown _ _ (List.mem_cons_self ..) hchild hv _ _ _ hdone he₁)
      (List.forall_mem_cons.1 hpair).2 ?_ hr hr' ?_
    · exact fun node node' hmem => hknown node node' (List.mem_cons_of_mem _ hmem)
    · exact fun hm hsub => hearly hm fun demand hd => List.mem_cons_of_mem _ (hsub demand hd)
  | stopped => cases hr'

end Computations

/-! ## Values side by side -/

/-- The values are the same, except that an object may stand for another one. -/
inductive Resembles : Json → Json → Prop where
  | same (value : Json) : Resembles value value
  | array {items items' : List Json} (h : List.Forall₂ Resembles items items') :
      Resembles (.array items) (.array items')
  | object (fields fields' : List (String × Json)) : Resembles (.object fields) (.object fields')

section Values

variable {value value' : Json} {values values' : Option Json}

theorem Resembles.of_eq (h : value' = value) : Resembles value value' := h ▸ .same value

theorem Resembles.string? (h : Resembles value value') : value'.string? = value.string? := by
  cases h <;> rfl

theorem Resembles.bool? (h : Resembles value value') : value'.bool? = value.bool? := by
  cases h <;> rfl

theorem Resembles.nat? (h : Resembles value value') : value'.nat? = value.nat? := by
  cases h <;> rfl

/-- Values that are no objects are the same or arrays. -/
theorem Resembles.plain (h : Resembles value value') (hv : ∀ fields, value ≠ .object fields) :
    value' = value ∨ ∃ items items', value = .array items ∧ value' = .array items' := by
  cases h with
  | same => exact .inl rfl
  | array => exact .inr ⟨_, _, rfl, rfl⟩
  | object fields => exact absurd rfl (hv fields)

/-- Arrays that resemble each other have as many items, and these resemble each other in turn. -/
theorem Resembles.items (h : Resembles value value') :
    Option.Rel (List.Forall₂ Resembles) value.items? value'.items? := by
  cases h with
  | same =>
    cases value with
    | array items => exact .some (List.forall₂_same.2 fun item _ => .same item)
    | _ => exact .none
  | array h => exact .some h
  | object => exact .none

/-- What is the same of values that resemble each other is the same of such values that may be
missing. -/
theorem bind_alike {α : Type} {f : Json → Option α}
    (hf : ∀ {value value'}, Resembles value value' → f value' = f value)
    (h : Option.Rel Resembles values values') : values'.bind f = values.bind f := by
  cases h with
  | none => rfl
  | some h => exact hf h

theorem strings_alike {items items' : List Json} (h : List.Forall₂ Resembles items items') :
    items'.filterMap Json.string? = items.filterMap Json.string? := by
  induction h with
  | nil => rfl
  | cons h _ ih => rw [List.filterMap_cons, List.filterMap_cons, h.string?, ih]

end Values

/-! ## Schemas side by side -/

section Schemas

variable (child : Node → Node → Prop) (remarks : Option String → Option String → Prop)

/-- Lists of corresponding schemas, or no lists. -/
inductive ListPair (list list' : Node) : Prop where
  | items {values values' : List Json} (hv : list.value = .array values)
      (hv' : list'.value = .array values') (h : List.Forall₂ child list.items list'.items)
  | none (hv : ∀ values, list.value ≠ .array values) (hv' : ∀ values, list'.value ≠ .array values)

/-- Corresponding schemas under the same keys with related comments, or no objects. -/
inductive FieldsPair (fields fields' : Node) : Prop where
  | fields {values values' : List (String × Json)} (hv : fields.value = .object values)
      (hv' : fields'.value = .object values')
      (h : List.Forall₂ (fun field field' => field.1 = field'.1 ∧ child field.2 field'.2 ∧
        remarks (comment? field.2.value) (comment? field'.2.value)) fields.fields fields'.fields)
  | none (hv : ∀ values, fields.value ≠ .object values)
      (hv' : ∀ values, fields'.value ≠ .object values)

/-- Corresponding schemas. One without keywords corresponds to the same value only, or is none. -/
inductive SchemaPair (node node' : Node) : Prop where
  | plain (h : child node node') (hv : ∀ fields, node.value ≠ .object fields)
      (he : Resembles node.value node'.value)
  | keywords {fields : List (String × Json)} (h : child node node')
      (hv : node.value = .object fields)

/-- Corresponding `items`. -/
inductive ItemsPair (items items' : Node) : Prop where
  | list {values values' : List Json} (hv : items.value = .array values)
      (hv' : items'.value = .array values') (h : List.Forall₂ child items.items items'.items)
  | schema (hv : ∀ values, items.value ≠ .array values) (h : SchemaPair child items items')

/-- The keywords that hold no schemas. -/
def plainKeywords : List String :=
  ["$ref", "tsType", "enum", "const", "type", "required", "patternProperties", "minItems",
    "maxItems"]

/-- Schemas with the same keywords and corresponding schemas inside. Where a keyword is read
differently if it holds a schema with keywords, as far as that is asked for, the other schema holds
one as well, or makes no difference. -/
structure Alike (context : Context) (asked : List Demand) (node node' : Node) : Prop where
  same : ∀ keyword ∈ plainKeywords,
    Option.Rel Resembles (node.value.get? keyword) (node'.value.get? keyword)
  properties : Option.Rel (FieldsPair child remarks) (node.field? "properties")
    (node'.field? "properties")
  branches : ∀ keyword ∈ ["anyOf", "oneOf", "allOf"],
    Option.Rel (ListPair child) (node.field? keyword) (node'.field? keyword)
  items : Option.Rel (ItemsPair child) (node.field? "items") (node'.field? "items")
  additional : ∀ keyword ∈ ["additionalProperties", "additionalItems"],
    Option.Rel (SchemaPair child) (node.field? keyword) (node'.field? keyword)
  index {additional additional' : Node} : node.field? "additionalProperties" = some additional →
    node'.field? "additionalProperties" = some additional' → .inner additional ∈ asked →
    (∃ fields, additional.value = .object fields) → additional'.value ≠ .bool false
  rest {additional additional' : Node} : node.field? "additionalItems" = some additional →
    node'.field? "additionalItems" = some additional' → .inner additional ∈ asked →
    (∃ fields, additional.value = .object fields) →
    (∃ fields, additional'.value = .object fields) ∨
      additional'.value = .bool true ∧ (boundsOf context.style node.value).greatest = none
  list {items items' : Node} : node.field? "items" = some items →
    node'.field? "items" = some items' → .inner items ∈ asked →
    (∃ fields, items.value = .object fields) → ∀ values, items'.value ≠ .array values

end Schemas

/-- The schema is the intersection of no schemas: it has none of the keywords in front of `allOf`,
and nothing stands under that one. -/
structure EmptyIntersection (node : Node) : Prop where
  ref : node.value.get? "$ref" = none
  written : (node.value.get? "tsType").bind Json.string? = none
  enum : node.value.get? "enum" = none
  const : node.value.get? "const" = none
  anyOf : node.value.get? "anyOf" = none
  oneOf : node.value.get? "oneOf" = none
  allOf : node.value.get? "allOf" = some (.array [])

/-- The contexts ask for the same, and unconstrained values have related types. -/
structure ContextPair (related : TypeExpr → TypeExpr → Prop) (context context' : Context) :
    Prop where
  bounds : context'.style.ignoreMinAndMaxItems = context.style.ignoreMinAndMaxItems
  others : context'.style.additionalProperties = context.style.additionalProperties
  unknown : related context.unknown context'.unknown

section Keywords

variable {related : TypeExpr → TypeExpr → Prop} {remarks : Option String → Option String → Prop}
  {child : Node → Node → Prop} {context context' : Context} {asked : List Demand}
  {node node' : Node}

/-- There is something on both sides or on neither. -/
theorem optionRel_cases {α β : Type} {R : α → β → Prop} {x : Option α} {y : Option β}
    (h : Option.Rel R x y) : x = none ∧ y = none ∨ ∃ a b, x = some a ∧ y = some b ∧ R a b := by
  cases h with
  | none => exact .inl ⟨rfl, rfl⟩
  | some h => exact .inr ⟨_, _, rfl, rfl, h⟩

theorem optionRel_imp {α β : Type} {R S : α → β → Prop} {x : Option α} {y : Option β}
    (h : Option.Rel R x y) (hs : ∀ a b, R a b → S a b) : Option.Rel S x y := by
  cases h with
  | none => exact .none
  | some h => exact .some (hs _ _ h)

theorem value_of_field? {node child : Node} {key : String} (h : node.field? key = some child) :
    node.value.get? key = some child.value := by
  obtain ⟨value, hvalue, rfl⟩ := Option.map_eq_some_iff.1 h
  exact hvalue

theorem optionRel_isSome {α β : Type} {R : α → β → Prop} {x : Option α} {y : Option β}
    (h : Option.Rel R x y) : y.isSome = x.isSome := by
  cases h <;> rfl

theorem isSome_field? (node : Node) (key : String) :
    (node.field? key).isSome = (node.value.get? key).isSome := by
  rw [Node.field?, Option.isSome_map]

theorem requiredKeys_alike (ha : Alike child remarks context asked node node') :
    requiredKeys node'.value = requiredKeys node.value := by
  unfold requiredKeys
  rcases optionRel_cases (ha.same "required" (by decide)) with ⟨h, h'⟩ | ⟨_, _, h, h', hpair⟩
  · rw [h, h']
  · rw [h, h', Option.bind_some, Option.bind_some]
    rcases optionRel_cases hpair.items with ⟨h, h'⟩ | ⟨_, _, h, h', hitems⟩
    · rw [h, h']
    · rw [h, h']
      exact strings_alike hitems

/-- Schemas that are alike have the same bounds on the length of arrays. -/
theorem boundsOf_alike (ha : Alike child remarks context asked node node')
    (hp : ContextPair related context context') :
    boundsOf context'.style node'.value = boundsOf context.style node.value := by
  unfold boundsOf
  rw [hp.bounds, bind_alike Resembles.nat? (ha.same "minItems" (by decide)),
    bind_alike Resembles.nat? (ha.same "maxItems" (by decide))]

/-- Schemas that are alike have a keyword of objects both or neither, and likewise for arrays. -/
theorem hasKeyword_alike (ha : Alike child remarks context asked node node') :
    (keywordsOfObjects.any fun keyword => (node'.value.get? keyword).isSome) =
        (keywordsOfObjects.any fun keyword => (node.value.get? keyword).isSome) ∧
      (keywordsOfArrays.any fun keyword => (node'.value.get? keyword).isSome) =
        (keywordsOfArrays.any fun keyword => (node.value.get? keyword).isSome) := by
  have hrel : ∀ {R : Node → Node → Prop} {key : String},
      Option.Rel R (node.field? key) (node'.field? key) →
      (node'.value.get? key).isSome = (node.value.get? key).isSome := by
    intro R key h
    rw [← isSome_field?, ← isSome_field?]
    exact optionRel_isSome h
  have hsame : ∀ keyword ∈ plainKeywords,
      (node'.value.get? keyword).isSome = (node.value.get? keyword).isSome :=
    fun keyword hmem => optionRel_isSome (ha.same keyword hmem)
  simp only [keywordsOfObjects, keywordsOfArrays, List.any_cons, List.any_nil,
    hrel ha.properties, hrel (ha.additional "additionalProperties" (by decide)),
    hrel (ha.additional "additionalItems" (by decide)), hrel ha.items,
    hsame "required" (by decide), hsame "patternProperties" (by decide),
    hsame "minItems" (by decide), hsame "maxItems" (by decide), and_self]

variable (hc : Respected related remarks) (hp : ContextPair related context context')
  (ha : Alike child remarks context asked node node')

/-- A value that resembles another one has the same literal, or is refused for the same reason. -/
theorem meetBoth_literalType (hc : Respected related remarks) {value value' : Json}
    (h : Resembles value value') :
    MeetBoth related child context'.unknown related (literalDemands value) (literalDemands value')
      (fun _ _ => literalType value) fun _ _ => literalType value' := by
  cases h with
  | array => exact .refused _ _ _ _
  | object => exact .refused _ _ _ _
  | same =>
    cases value with
    | string text => exact .pure (hc.literal (.string text))
    | number number => exact .pure (hc.literal (.number number))
    | bool value => exact .pure (hc.literal (.bool value))
    | null => exact .pure (hc.keyword .null nofun nofun)
    | array items => exact .refused _ _ _ _
    | object fields => exact .refused _ _ _ _

theorem meetBoth_literalTypes (hc : Respected related remarks) {values values' : List Json}
    (h : List.Forall₂ Resembles values values') :
    MeetBoth related child context'.unknown related (values.flatMap literalDemands)
      (values'.flatMap literalDemands) (fun _ _ => return .unionOf (← values.mapM literalType))
      fun _ _ => return .unionOf (← values'.mapM literalType) :=
  (MeetBoth.mapM (h.imp fun _ _ hpair => meetBoth_literalType hc hpair)).map
    fun _ _ => hc.unionOf

include ha in
/-- Members for the properties, in the same order on both sides. -/
theorem meetBoth_propertyMembers :
    MeetBoth related child context'.unknown (List.Forall₂ (MemberPair related remarks))
      (propertyDemands node) (propertyDemands node')
      (fun typeOf _ => propertyMembers typeOf node)
      fun typeOf _ => propertyMembers typeOf node' := by
  rcases optionRel_cases ha.properties with ⟨h, h'⟩ | ⟨properties, properties', h, h', hpair⟩
  · simp only [propertyMembers, propertyDemands, h, h']
    exact .pure .nil
  · simp only [propertyMembers, propertyDemands, h, h', requiredKeys_alike ha]
    cases hpair with
    | fields hv hv' hfields =>
      simp only [hv, hv', List.map_eq_flatMap]
      refine MeetBoth.mapM (hfields.imp ?_)
      rintro ⟨key, property⟩ ⟨_, property'⟩ ⟨rfl, hchild, hremarks⟩
      exact (MeetBoth.one (.inner hchild)).map fun _ _ htypes => .property htypes hremarks
    | none hv hv' =>
      cases hvalue : properties.value with
      | object fields => exact absurd hvalue (hv fields)
      | _ =>
        cases hvalue' : properties'.value with
        | object fields => exact absurd hvalue' (hv' fields)
        | _ => exact .refused _ _ _ _

include hp ha in
/-- A signature for all other keys is on both sides or on neither. -/
theorem meetBoth_indexMembers (hsub : indexDemands node ⊆ asked) :
    MeetBoth related child context'.unknown (List.Forall₂ (MemberPair related remarks))
      (indexDemands node) (indexDemands node')
      (fun typeOf _ => indexMembers context typeOf node)
      fun typeOf _ => indexMembers context' typeOf node' := by
  have hunknown : List.Forall₂ (MemberPair related remarks) [.anyKey context.unknown]
      [.anyKey context'.unknown] := .cons (.anyKey hp.unknown) .nil
  rcases optionRel_cases (ha.additional "additionalProperties" (by decide)) with
    ⟨h, h'⟩ | ⟨additional, additional', h, h', hpair⟩
  · simp only [indexMembers, indexDemands, h, h', hp.others]
    refine .pure ?_
    split
    · exact hunknown
    · exact .nil
  · have hindex := ha.index h h'
    simp only [indexDemands, h] at hsub
    simp only [indexMembers, indexDemands, h, h']
    cases hpair with
    | plain hchild hv he =>
      rcases he.plain hv with he | ⟨_, _, harray, harray'⟩
      · simp only [he]
        cases hvalue : additional.value with
        | bool value =>
          cases value
          · exact .pure .nil
          · exact .pure hunknown
        | object fields => exact absurd hvalue (hv fields)
        | _ => exact .refused _ _ _ _
      · simp only [harray, harray']
        exact .refused _ _ _ _
    | keywords hchild hv =>
      simp only [hv] at hsub ⊢
      cases hvalue' : additional'.value with
      | object fields' =>
        exact (MeetBoth.one (.inner hchild)).map fun _ _ htypes => .cons (.anyKey htypes) .nil
      | bool value =>
        cases value
        · exact absurd hvalue' (hindex (hsub (List.mem_singleton_self _)) ⟨_, hv⟩)
        · exact .known hchild ⟨_, hv⟩ hvalue' (fun _ => .pure _) fun _ htypes =>
            .pure (.cons (.anyKey htypes) .nil)
      | _ => exact .stopped _ _ _ hchild ⟨_, hv⟩ (by simp [NoSchema, hvalue']) fun _ => .pure _

include hc hp ha in
/-- The types of two objects are related if their members are, one by one. -/
theorem meetBoth_typeOfObject (hsub : objectDemands node ⊆ asked) :
    MeetBoth related child context'.unknown related (objectDemands node) (objectDemands node')
      (fun typeOf _ => typeOfObject context typeOf node)
      fun typeOf _ => typeOfObject context' typeOf node' := by
  have hindex : indexDemands node ⊆ asked := fun _ h => hsub (List.mem_append_right _ h)
  refine (meetBoth_propertyMembers ha).bind (fun _ => (meets_indexMembers context node).map)
    fun members members' hmembers => ?_
  exact (meetBoth_indexMembers hp ha hindex).map fun others others' hothers =>
    hc.object (List.rel_append hmembers hothers)

include hp ha in
/-- What may follow the items, for the same bounds on both sides. -/
theorem meetBoth_restType (hsub : restDemands node ⊆ asked) :
    MeetBoth related child context'.unknown (Option.Rel related) (restDemands node)
      (restDemands node')
      (fun typeOf _ => restType context typeOf node (boundsOf context.style node.value))
      fun typeOf _ => restType context' typeOf node' (boundsOf context.style node.value) := by
  have hunbounded : Option.Rel related
      (if (boundsOf context.style node.value).greatest.isNone then some context.unknown else none)
      (if (boundsOf context.style node.value).greatest.isNone then some context'.unknown
        else none) := by
    split
    · exact .some hp.unknown
    · exact .none
  rcases optionRel_cases (ha.additional "additionalItems" (by decide)) with
    ⟨h, h'⟩ | ⟨additional, additional', h, h', hpair⟩
  · simp only [restType, restDemands, h, h']
    exact .pure hunbounded
  · have hrest := ha.rest h h'
    simp only [restDemands, h] at hsub
    simp only [restType, restDemands, h, h']
    cases hpair with
    | plain hchild hv he =>
      rcases he.plain hv with he | ⟨_, _, harray, harray'⟩
      · simp only [he]
        cases hvalue : additional.value with
        | bool value =>
          cases value
          · exact .pure .none
          · exact .pure hunbounded
        | object fields => exact absurd hvalue (hv fields)
        | _ => exact .pure .none
      · simp only [harray, harray']
        exact .pure .none
    | keywords hchild hv =>
      simp only [hv] at hsub ⊢
      rcases hrest (hsub (List.mem_singleton_self _)) ⟨_, hv⟩ with
        ⟨fields', hvalue'⟩ | ⟨hvalue', hgreatest⟩
      · simp only [hvalue']
        exact (MeetBoth.one (.inner hchild)).map fun _ _ htypes => .some htypes
      · simp only [hvalue', hgreatest]
        exact .known hchild ⟨_, hv⟩ hvalue' (fun _ => .pure _) fun _ htypes =>
          .pure (.some htypes)

/-- The items of two lists have related types. If there are none on the left, then the list is
empty, and not only its types. -/
theorem meetBoth_items {list list' : Node} (h : List.Forall₂ child list.items list'.items) :
    MeetBoth related child context'.unknown (fun types types' =>
        List.Forall₂ related types types' ∧ (types = [] → list.items = []))
      (list.items.map Demand.inner) (list'.items.map Demand.inner)
      (fun typeOf _ => list.items.mapM typeOf) fun typeOf _ => list'.items.mapM typeOf := by
  rw [List.map_eq_flatMap, List.map_eq_flatMap]
  generalize list.items = items at h ⊢
  generalize list'.items = items' at h ⊢
  cases h with
  | nil => exact .pure ⟨.nil, fun _ => rfl⟩
  | cons h hothers =>
    have hone : ∀ node node', child node node' →
        MeetBoth related child context'.unknown related [.inner node] [.inner node']
          (fun typeOf _ => typeOf node) fun typeOf _ => typeOf node' :=
      fun _ _ hchild => .one (.inner hchild)
    have hrest := MeetBoth.mapM (hothers.imp hone)
    simp only [List.mapM_cons, List.flatMap_cons]
    exact (hone _ _ h).bind (fun _ => hrest.meets.map) fun _ _ htype =>
      hrest.map fun _ _ htypes => ⟨.cons htype htypes, nofun⟩

include hc hp ha in
/-- The types of two arrays are related: the bounds are the same, and so the tuples are of the same
lengths. -/
theorem meetBoth_typeOfArray (hsub : arrayDemands node ⊆ asked) :
    MeetBoth related child context'.unknown related (arrayDemands node) (arrayDemands node')
      (fun typeOf _ => typeOfArray context typeOf node)
      fun typeOf _ => typeOfArray context' typeOf node' := by
  rcases optionRel_cases ha.items with ⟨h, h'⟩ | ⟨items, items', h, h', hpair⟩
  · simp only [typeOfArray, arrayDemands, h, h', boundsOf_alike ha hp]
    exact .pure (hc.uniform hp.unknown hp.unknown _)
  · have hlist := ha.list h h'
    simp only [arrayDemands, h] at hsub
    simp only [typeOfArray, arrayDemands, h, h', boundsOf_alike ha hp]
    have heach : ∀ type type', related type type' →
        related (ArrayType.uniform context.unknown type (boundsOf context.style node.value))
          (ArrayType.uniform context'.unknown type' (boundsOf context.style node.value)) :=
      fun _ _ htypes => hc.uniform hp.unknown htypes _
    cases hpair with
    | list hv hv' hitems =>
      simp only [hv] at hsub
      simp only [hv, hv']
      have hrest : restDemands node ⊆ asked := fun _ h => hsub (List.mem_append_right _ h)
      refine (meetBoth_items hitems).bind (fun _ => (meets_restType context node _).map)
        fun types types' htypes => ?_
      refine (meetBoth_restType hp ha hrest).map fun rest rest' hrest => ?_
      refine hc.ofItems hp.unknown ?_ _ hrest
      cases (boundsOf context.style node.value).greatest with
      | none => exact htypes.1
      | some greatest => exact List.forall₂_take greatest htypes.1
    | schema hv hschema =>
      cases hschema with
      | plain hchild hkeywords he =>
        rcases he.plain hkeywords with he | ⟨_, _, harray, -⟩
        · simp only [he]
          cases hvalue : items.value with
          | bool value => exact (MeetBoth.one (.inner hchild)).map heach
          | array values => exact absurd hvalue (hv values)
          | object fields => exact absurd hvalue (hkeywords fields)
          | _ => exact .refused _ _ _ _
        · exact absurd harray (hv _)
      | keywords hchild hkeywords =>
        simp only [hkeywords] at hsub ⊢
        have hlist := hlist (hsub (List.mem_singleton_self _)) ⟨_, hkeywords⟩
        cases hvalue' : items'.value with
        | object fields' => exact (MeetBoth.one (.inner hchild)).map heach
        | bool value => exact (MeetBoth.one (.inner hchild)).map heach
        | array values => exact absurd hvalue' (hlist values)
        | _ =>
          exact .stopped _ _ _ hchild ⟨_, hkeywords⟩ (by simp [NoSchema, hvalue']) fun _ => .pure _

include hc hp ha in
/-- A type that is called by name is the same on both sides, or put together from related ones. -/
theorem meetBoth_typeNamed (name : String) (hsub : nameDemands node name ⊆ asked) :
    MeetBoth related child context'.unknown related (nameDemands node name)
      (nameDemands node' name) (fun typeOf _ => typeNamed context typeOf name node)
      fun typeOf _ => typeNamed context' typeOf name node' := by
  unfold nameDemands at hsub ⊢
  split at hsub
  · exact .pure (hc.keyword .string nofun nofun)
  · exact .pure (hc.keyword .number nofun nofun)
  · exact .pure (hc.keyword .number nofun nofun)
  · exact .pure (hc.keyword .boolean nofun nofun)
  · exact .pure (hc.keyword .null nofun nofun)
  · exact .pure hp.unknown
  · exact meetBoth_typeOfObject hc hp ha hsub
  · exact meetBoth_typeOfArray hc hp ha hsub
  · unfold typeNamed
    split <;> first | contradiction | exact .refused _ _ _ _

/-- The branches of a keyword have related types. -/
theorem meetBoth_branchTypes (keyword : String) {branches branches' : Node}
    (h : ListPair child branches branches') :
    MeetBoth related child context'.unknown (fun types types' =>
        List.Forall₂ related types types' ∧ (types = [] → branches.value = .array []))
      (branchDemands keyword branches) (branchDemands keyword branches')
      (fun typeOf _ => branchTypes typeOf keyword branches)
      fun typeOf _ => branchTypes typeOf keyword branches' := by
  unfold branchTypes branchDemands
  cases h with
  | @items values _ hv hv' hitems =>
    have hnone : branches.items = [] → Json.array values = .array [] := by
      intro hnone
      have hvalues := branches.values_items
      rw [hnone, hv] at hvalues
      exact congrArg Json.array hvalues.symm
    simp only [hv, hv']
    exact (meetBoth_items hitems).imp fun _ _ htypes =>
      ⟨htypes.1, fun hempty => hnone (htypes.2 hempty)⟩
  | none hv hv' =>
    cases hvalue : branches.value with
    | array values => exact absurd hvalue (hv values)
    | _ =>
      cases hvalue' : branches'.value with
      | array values => exact absurd hvalue' (hv' values)
      | _ => exact .refused _ _ _ _

include hc hp ha in
/-- The names of an array of type names are met one by one. -/
theorem meetBoth_typeNames {names names' : List Json} (h : List.Forall₂ Resembles names names')
    (hsub : (names.flatMap fun
      | .string name => nameDemands node name
      | value => [.refused (.badTypeName value)]) ⊆ asked) :
    MeetBoth related child context'.unknown related
      (names.flatMap fun
        | .string name => nameDemands node name
        | value => [.refused (.badTypeName value)])
      (names'.flatMap fun
        | .string name => nameDemands node' name
        | value => [.refused (.badTypeName value)])
      (fun typeOf _ => do
        let types ← names.mapM fun
          | .string name => typeNamed context typeOf name node
          | value => .fail (.badTypeName value)
        return .unionOf types)
      fun typeOf _ => do
        let types ← names'.mapM fun
          | .string name => typeNamed context' typeOf name node'
          | value => .fail (.badTypeName value)
        return .unionOf types := by
  refine (MeetBoth.mapM ?_).map fun _ _ => hc.unionOf
  induction h with
  | nil => exact .nil
  | @cons value value' names names' hpair _ ih =>
    obtain ⟨hfirst, hrest⟩ := List.append_subset.1 (List.flatMap_cons ▸ hsub)
    refine .cons ?_ (ih hrest)
    cases hpair with
    | array => exact .refused _ _ _ _
    | object => exact .refused _ _ _ _
    | same =>
      cases value with
      | string name => exact meetBoth_typeNamed hc hp ha name hfirst
      | _ => exact .refused _ _ _ _

include hc hp ha in
/-- Schemas that are alike have the same kind, and related types of that kind. -/
theorem meetBoth_typeByKind (hsub : kindDemands node ⊆ asked) :
    MeetBoth related child context'.unknown related (kindDemands node) (kindDemands node')
      (fun typeOf _ => typeByKind context typeOf node)
      fun typeOf _ => typeByKind context' typeOf node' := by
  obtain ⟨hobjects, harrays⟩ := hasKeyword_alike ha
  unfold kindDemands at hsub
  unfold typeByKind kindDemands
  simp only [hobjects, harrays]
  rcases optionRel_cases (ha.same "type" (by decide)) with
    ⟨h, h'⟩ | ⟨value, value', h, h', hpair⟩
  · simp only [h] at hsub
    simp only [h, h']
    split
    · rename_i hk
      rw [if_pos hk] at hsub
      exact meetBoth_typeOfObject hc hp ha hsub
    · rename_i hk
      rw [if_neg hk] at hsub
      split
      · rename_i hk
        rw [if_pos hk] at hsub
        exact meetBoth_typeOfArray hc hp ha hsub
      · exact .pure hp.unknown
  · simp only [h] at hsub
    simp only [h, h']
    cases hpair with
    | array hnames => exact meetBoth_typeNames hc hp ha hnames hsub
    | object => exact .refused _ _ _ _
    | same =>
      cases value with
      | string name => exact meetBoth_typeNamed hc hp ha name hsub
      | array names =>
        exact meetBoth_typeNames hc hp ha (List.forall₂_same.2 fun value _ => .same value) hsub
      | _ => exact .refused _ _ _ _

variable (hw : ∀ text, (node.value.get? "tsType").bind Json.string? = some text →
  related (writtenType text) (writtenType text))
  (he : EmptyIntersection node → related .unknown .unknown)

include hc hp ha hw he in
/-- Schemas that are alike have the same first keyword, which decides on both sides. -/
theorem meetBoth_typeByKeywords (hsub : keywordDemands node ⊆ asked) :
    MeetBoth related child context'.unknown related (keywordDemands node) (keywordDemands node')
      (fun typeOf follow => typeByKeywords context typeOf follow node)
      fun typeOf follow => typeByKeywords context' typeOf follow node' := by
  unfold keywordDemands at hsub
  unfold typeByKeywords keywordDemands
  simp only [bind_alike Resembles.string? (ha.same "tsType" (by decide))]
  rcases optionRel_cases (ha.same "$ref" (by decide)) with
    ⟨href, href'⟩ | ⟨reference, reference', h, h', hpair⟩
  case inr =>
    simp only [h, h']
    cases hpair with
    | array => exact .refused _ _ _ _
    | object => exact .refused _ _ _ _
    | same =>
      cases reference with
      | string reference => exact .one (.referred reference)
      | _ => exact .refused _ _ _ _
  simp only [href] at hsub
  simp only [href, href']
  cases hwritten : (node.value.get? "tsType").bind Json.string? with
  | some text => exact .pure (hw text hwritten)
  | none =>
  simp only [hwritten] at hsub
  rcases optionRel_cases (ha.same "enum" (by decide)) with
    ⟨henum, henum'⟩ | ⟨values, values', h, h', hpair⟩
  case inr =>
    simp only [h, h']
    cases hpair with
    | array hvalues => exact meetBoth_literalTypes hc hvalues
    | object => exact .refused _ _ _ _
    | same =>
      cases values with
      | array values =>
        exact meetBoth_literalTypes hc (List.forall₂_same.2 fun value _ => .same value)
      | _ => exact .refused _ _ _ _
  simp only [henum] at hsub
  simp only [henum, henum']
  rcases optionRel_cases (ha.same "const" (by decide)) with
    ⟨hconst, hconst'⟩ | ⟨value, value', h, h', hpair⟩
  case inr => simpa only [h, h'] using meetBoth_literalType hc hpair
  simp only [hconst] at hsub
  simp only [hconst, hconst']
  rcases optionRel_cases (ha.branches "anyOf" (by decide)) with
    ⟨hany, hany'⟩ | ⟨_, _, h, h', hpair⟩
  case inr =>
    simpa only [h, h'] using (meetBoth_branchTypes _ hpair).map fun _ _ h => hc.unionOf h.1
  simp only [hany] at hsub
  simp only [hany, hany']
  rcases optionRel_cases (ha.branches "oneOf" (by decide)) with
    ⟨hone, hone'⟩ | ⟨_, _, h, h', hpair⟩
  case inr =>
    simpa only [h, h'] using (meetBoth_branchTypes _ hpair).map fun _ _ h => hc.unionOf h.1
  simp only [hone] at hsub
  simp only [hone, hone']
  rcases optionRel_cases (ha.branches "allOf" (by decide)) with
    ⟨h, h'⟩ | ⟨branches, branches', h, h', hpair⟩
  case inr =>
    have hempty : branches.value = .array [] → related .unknown .unknown := fun hv =>
      he ⟨href, hwritten, henum, hconst, Option.map_eq_none_iff.1 hany,
        Option.map_eq_none_iff.1 hone, by rw [value_of_field? h, hv]⟩
    simpa only [h, h'] using (meetBoth_branchTypes _ hpair).map fun _ _ htypes =>
      hc.intersectionOf_of (fun hnone => hempty (htypes.2 hnone)) htypes.1
  simp only [h] at hsub
  simp only [h, h']
  exact meetBoth_typeByKind hc hp ha hsub

end Keywords

/-- Schemas that say the same: both have keywords, or both are the same value or no schema. -/
inductive Corresponds (child : Node → Node → Prop)
    (remarks : Option String → Option String → Prop) (context : Context) (node node' : Node) :
    Prop where
  | plain (hv : ∀ fields, node.value ≠ .object fields) (he : Resembles node.value node'.value)
  | keywords {fields fields' : List (String × Json)} (hv : node.value = .object fields)
      (hv' : node'.value = .object fields') (ha : Alike child remarks context (demands node) node
      node')

/-- Working out one of two schemas that say the same goes like working out the other one. -/
theorem meetBoth_typeOfSchema {related : TypeExpr → TypeExpr → Prop}
    {remarks : Option String → Option String → Prop} {child : Node → Node → Prop}
    {context context' : Context} {node node' : Node} (hc : Respected related remarks)
    (hp : ContextPair related context context')
    (hw : ∀ text, (node.value.get? "tsType").bind Json.string? = some text →
      related (writtenType text) (writtenType text))
    (he : EmptyIntersection node → related .unknown .unknown)
    (h : Corresponds child remarks context node node') :
    MeetBoth related child context'.unknown related (demands node) (demands node')
      (fun typeOf follow => typeOfSchema context typeOf follow node)
      fun typeOf follow => typeOfSchema context' typeOf follow node' := by
  unfold typeOfSchema
  cases h with
  | keywords hv hv' ha =>
    have hsub : keywordDemands node ⊆ demands node := by
      unfold demands
      rw [hv]
      exact List.Subset.refl _
    have hboth := meetBoth_typeByKeywords hc hp ha hw he hsub
    unfold demands
    simpa only [hv, hv'] using hboth
  | plain hv hvalue =>
    unfold demands
    rcases hvalue.plain hv with hvalue | ⟨_, _, harray, harray'⟩
    · rw [hvalue]
      cases hvalue : node.value with
      | object fields => exact absurd hvalue (hv fields)
      | bool value =>
        cases value
        · exact .pure (hc.keyword .never nofun nofun)
        · exact .pure hp.unknown
      | _ => exact .refused _ _ _ _
    · rw [harray, harray']
      exact .refused _ _ _ _

/-! ## A schema beside itself -/

/-- A context is paired with itself. -/
theorem contextPair_self {related : TypeExpr → TypeExpr → Prop} {context : Context}
    (h : related context.unknown context.unknown) : ContextPair related context context :=
  ⟨rfl, rfl, h⟩

theorem optionRel_self {α : Type} {R : α → α → Prop} (x : Option α) (h : ∀ a, R a a) :
    Option.Rel R x x := by
  cases x with
  | none => exact .none
  | some a => exact .some (h a)

/-- A schema says the same as itself. -/
theorem corresponds_self {child : Node → Node → Prop}
    {remarks : Option String → Option String → Prop} (hchild : ∀ node, child node node)
    (hremarks : ∀ comment, remarks comment comment) (context : Context) (node : Node) :
    Corresponds child remarks context node node := by
  have hitems : ∀ list : Node, List.Forall₂ child list.items list.items :=
    fun list => List.forall₂_same.2 fun node _ => hchild node
  have hschema : ∀ node, SchemaPair child node node := by
    intro node
    cases hv : node.value with
    | object fields => exact .keywords (hchild node) hv
    | _ => exact .plain (hchild node) (by simp [hv]) (.same _)
  cases hv : node.value with
  | object fields =>
    refine .keywords hv hv ⟨fun _ _ => optionRel_self _ .same, ?_, fun _ _ => ?_, ?_,
      fun _ _ => ?_, ?_, ?_, ?_⟩
    · refine optionRel_self _ fun properties => ?_
      cases hp : properties.value with
      | object fields =>
        exact .fields hp hp (List.forall₂_same.2 fun field _ => ⟨rfl, hchild _, hremarks _⟩)
      | _ => exact .none (by simp [hp]) (by simp [hp])
    · refine optionRel_self _ fun branches => ?_
      cases hb : branches.value with
      | array values => exact .items hb hb (hitems branches)
      | _ => exact .none (by simp [hb]) (by simp [hb])
    · refine optionRel_self _ fun items => ?_
      cases hi : items.value with
      | array values => exact .list hi hi (hitems items)
      | _ => exact .schema (by simp [hi]) (hschema items)
    · exact optionRel_self _ hschema
    · rintro additional additional' h h' - ⟨fields, hfields⟩
      cases h.symm.trans h'
      simp [hfields]
    · rintro additional additional' h h' - hfields
      cases h.symm.trans h'
      exact .inl hfields
    · rintro items items' h h' - ⟨fields, hfields⟩
      cases h.symm.trans h'
      simp [hfields]
  | _ => exact .plain (by simp [hv]) (.same _)

end LintTypes.Schema
