import LintTypes.Proofs.HoistedNodes

/-!
# References in place

A schema says the same if what it refers to stands in its place, and if titles are left out: this is
what `inlined` makes of it. References are put in place to a depth. If no way in the document is
longer, it makes no difference where that ends, and no reference is left.

A keyword may read a truth value or an array in another way than a schema that refers to one;
`Reads` says that it does not come to this.
-/

namespace LintTypes.Schema

open Hoisting Relation

/-! ## Inlined schemas -/

/-- The schema of the document that a schema refers to. -/
def referred? (document schema : Json) : Option Json :=
  match ((schema.get? "$ref").bind Json.string?).map String.toList with
  | some ('#' :: pointer) => (Pointer.resolve? document pointer).map Node.value
  | _ => none

/-- The value of a keyword with its schemas changed. -/
def mapSchemas (f : Json → Json) (keyword : String) (value : Json) : Json :=
  match value with
  | .object fields =>
    if keyword ∈ ["properties", "$defs", "definitions"] then
      .object (fields.map fun field => (field.1, f field.2))
    else if keyword ∈ ["items", "additionalItems", "additionalProperties"] then f value
    else value
  | .array items =>
    if keyword ∈ ["items", "anyOf", "oneOf", "allOf"] then .array (items.map f) else value
  | value => value

/-- Whether a field is the title of a schema. -/
def isTitle (field : String × Json) : Bool := field.1 == "title" && field.2.string?.isSome

/-- A schema of the document with all that it refers to in place, to a depth, and without titles. -/
def inlined (document : Json) : Nat → Json → Json
  | depth + 1, .object fields =>
    match referred? document (.object fields) with
    | some schema => inlined document depth schema
    | none =>
      .object ((fields.filter fun field => !isTitle field).map fun field =>
        (field.1, mapSchemas (inlined document depth) field.1 field.2))
  | _, schema => schema

variable {context : Context} {depth : Nat} {node node' child last : Node}

/-! ## Ways that end -/

/-- All ways from the schema are shorter than the depth, and all schemas on them have the
property. -/
def AllWithin (context : Context) (P : Node → Prop) : Nat → Node → Prop
  | 0, _ => False
  | depth + 1, node =>
    P node ∧ ∀ child, LeadsTo context node child → AllWithin context P depth child

section AllWithin

variable {P : Node → Prop}

theorem AllWithin.within (h : AllWithin context P depth node) (hr : Reaches context node child) :
    ∃ less, AllWithin context P less child := by
  induction hr using ReflTransGen.head_induction_on generalizing depth with
  | refl => exact ⟨depth, h⟩
  | head hl _ ih =>
    cases depth with
    | zero => exact h.elim
    | succ depth => exact ih (h.2 _ hl)

theorem AllWithin.reached (h : AllWithin context P depth node) (hr : Reaches context node child) :
    P child := by
  obtain ⟨less, h⟩ := h.within hr
  cases less with
  | zero => exact h.elim
  | succ less => exact h.1

/-- Ways that end do not lead back. -/
theorem AllWithin.acyclic (h : AllWithin context P depth node) :
    ¬TransGen (LeadsTo context) node node := by
  have hshorter : ∀ {depth node child}, AllWithin context P depth node →
      TransGen (LeadsTo context) node child → ∃ less < depth, AllWithin context P less child := by
    intro depth node child h hr
    induction hr using TransGen.head_induction_on generalizing depth with
    | single hl =>
      cases depth with
      | zero => exact h.elim
      | succ depth => exact ⟨depth, Nat.lt_succ_self _, h.2 _ hl⟩
    | head hl _ ih =>
      cases depth with
      | zero => exact h.elim
      | succ depth =>
        obtain ⟨less, hlt, hless⟩ := ih (h.2 _ hl)
        exact ⟨less, hlt.trans (Nat.lt_succ_self _), hless⟩
  intro hcycle
  induction depth using Nat.strong_induction_on with
  | _ depth ih =>
    obtain ⟨less, hlt, hless⟩ := hshorter h hcycle
    exact ih less hlt hless

end AllWithin

/-- What a schema of the document leads to is in the document. -/
theorem LeadsTo.mem_subnodes (hn : node ∈ (Node.root context.document).subnodes)
    (h : LeadsTo context node child) : child ∈ (Node.root context.document).subnodes := by
  obtain ⟨demand, hmem, hleads⟩ := h
  cases hleads with
  | inner =>
    cases ofNode_of_mem_demands hmem with
    | child h => exact Node.mem_subnodes_of_children hn h
    | grandchild hp h =>
      exact Node.mem_subnodes_of_children (Node.mem_subnodes_of_children hn hp) h
  | referred ht =>
    obtain ⟨pointer, -, hresolve⟩ := target_node ht
    exact Pointer.mem_subnodes_of_resolve? hresolve

/-- If no schema that the document leads to leads back to itself, no way is longer than the document
is large. -/
theorem allWithin_of_acyclic {P : Node → Prop}
    (hP : ∀ node, Reaches context (.root context.document) node → P node)
    (hacyclic : ∀ node, Reaches context (.root context.document) node →
      ¬TransGen (LeadsTo context) node node) (hdepth : context.document.size ≤ depth) :
    AllWithin context P depth (.root context.document) := by
  -- The schemas that were passed are all different, so there are no more of them than nodes.
  have hpassed : ∀ (depth : Nat) (passed : List Node) (node : Node),
      Reaches context (.root context.document) node →
      node ∈ (Node.root context.document).subnodes →
      passed ⊆ (Node.root context.document).subnodes → passed.Nodup →
      (∀ other ∈ passed, TransGen (LeadsTo context) other node) →
      context.document.size ≤ depth + passed.length → AllWithin context P depth node := by
    intro depth
    induction depth with
    | zero =>
      intro passed node hreach hn hsub hnodup hleads hsize
      have hnot : node ∉ passed := fun hmem => hacyclic node hreach (hleads node hmem)
      have hle := ((List.nodup_cons.2 ⟨hnot, hnodup⟩).subperm
        (List.cons_subset.2 ⟨hn, hsub⟩)).length_le
      have hlength := (Node.root context.document).length_subnodes
      have hroot : (Node.root context.document).value.size = context.document.size := rfl
      rw [List.length_cons] at hle
      omega
    | succ depth ih =>
      intro passed node hreach hn hsub hnodup hleads hsize
      refine ⟨hP node hreach, fun child hl => ?_⟩
      have hnot : node ∉ passed := fun hmem => hacyclic node hreach (hleads node hmem)
      refine ih (node :: passed) child (hreach.tail hl) (hl.mem_subnodes hn)
        (List.cons_subset.2 ⟨hn, hsub⟩) (List.nodup_cons.2 ⟨hnot, hnodup⟩) ?_ ?_
      · exact List.forall_mem_cons.2 ⟨.single hl, fun other hmem => (hleads other hmem).tail hl⟩
      · rw [List.length_cons]
        omega
  have hroot : Node.root context.document ∈ (Node.root context.document).subnodes := by
    rw [Node.subnodes_eq]
    exact List.mem_cons_self ..
  exact hpassed depth [] _ .refl hroot (List.nil_subset _) .nil (List.forall_mem_nil _) hdepth

/-! ## What references lead to -/

/-- If the schema has a reference, it leads to a schema below the document. -/
def RefersInside (context : Context) (node : Node) : Prop :=
  ∀ reference, node.value.get? "$ref" = some reference →
    ∃ text child, reference = .string text ∧ target context text = .ok (.node child)

/-- Following references from the first schema on ends at the second one. -/
inductive EndsAt (context : Context) : Node → Node → Prop where
  | here {node : Node} (h : node.value.get? "$ref" = none) : EndsAt context node node
  | next {node child last : Node} {reference : String}
      (hr : node.value.get? "$ref" = some (.string reference))
      (ht : target context reference = .ok (.node child)) (h : EndsAt context child last) :
      EndsAt context node last

theorem EndsAt.get? (h : EndsAt context node last) : last.value.get? "$ref" = none := by
  induction h with
  | here h => exact h
  | next _ _ _ ih => exact ih

theorem demands_of_get? {reference : String}
    (hr : node.value.get? "$ref" = some (.string reference)) :
    demands node = [.referred reference] := by
  obtain ⟨fields, hv⟩ := object_of_get? hr
  unfold demands
  simp only [hv]
  simp only [keywordDemands, hr]

theorem LeadsTo.ofReference {reference : String}
    (hr : node.value.get? "$ref" = some (.string reference))
    (ht : target context reference = .ok (.node child)) : LeadsTo context node child :=
  .referred (by rw [demands_of_get? hr]; exact List.mem_singleton_self _) ht

theorem EndsAt.reaches (h : EndsAt context node last) : Reaches context node last := by
  induction h with
  | here => exact .refl
  | next hr ht _ ih => exact .head (.ofReference hr ht) ih

/-- A schema that refers to another one is replaced by it. -/
theorem inlined_of_reference {reference : String}
    (hr : node.value.get? "$ref" = some (.string reference))
    (ht : target context reference = .ok (.node child)) :
    inlined context.document (depth + 1) node.value =
      inlined context.document depth child.value := by
  obtain ⟨pointer, htext, hresolve⟩ := target_node ht
  have hreferred : referred? context.document node.value = some child.value := by
    simp [referred?, hr, Json.string?, htext, hresolve]
  obtain ⟨fields, hv⟩ := object_of_get? hr
  rw [hv] at hreferred ⊢
  simp only [inlined, hreferred]

/-- Other schemas with keywords keep them, their titles aside. -/
theorem inlined_of_keywords {fields : List (String × Json)}
    (hr : (Json.object fields).get? "$ref" = none) (document : Json) (depth : Nat) :
    inlined document (depth + 1) (.object fields) =
      .object ((fields.filter fun field => !isTitle field).map fun field =>
        (field.1, mapSchemas (inlined document depth) field.1 field.2)) := by
  simp [inlined, referred?, hr]

theorem inlined_of_plain {schema : Json} (h : ∀ fields, schema ≠ .object fields) (document : Json)
    (depth : Nat) : inlined document depth schema = schema := by
  cases depth with
  | zero => rfl
  | succ depth =>
    cases schema with
    | object fields => exact absurd rfl (h fields)
    | _ => rfl

/-- A schema is replaced by the last one that its references lead to. -/
theorem exists_endsAt (h : AllWithin context (RefersInside context) depth node) :
    ∃ last less, EndsAt context node last ∧
      inlined context.document depth node.value =
        inlined context.document (less + 1) last.value := by
  induction depth generalizing node with
  | zero => exact h.elim
  | succ depth ih =>
    cases hr : node.value.get? "$ref" with
    | none => exact ⟨node, depth, .here hr, rfl⟩
    | some reference =>
      obtain ⟨text, child, rfl, ht⟩ := h.1 reference hr
      obtain ⟨last, less, hends, heq⟩ := ih (h.2 child (.ofReference hr ht))
      refine ⟨last, less, .next hr ht hends, ?_⟩
      rw [inlined_of_reference hr ht, heq]

/-- The value is of the kind of the last schema that the references of another one lead to: both
have keywords, or the value is that schema. -/
def TakesPlace (context : Context) (node : Node) (value : Json) : Prop :=
  ∃ last, EndsAt context node last ∧
    ((∃ fields, last.value = .object fields) ∧ (∃ fields', value = .object fields') ∨
      (∀ fields, last.value ≠ .object fields) ∧ value = last.value)

theorem takesPlace_inlined (h : AllWithin context (RefersInside context) depth node) :
    TakesPlace context node (inlined context.document depth node.value) := by
  obtain ⟨last, less, hends, heq⟩ := exists_endsAt h
  refine ⟨last, hends, ?_⟩
  rw [heq]
  cases hv : last.value with
  | object fields =>
    have hr := hends.get?
    rw [hv] at hr
    exact .inl ⟨⟨fields, rfl⟩, _, inlined_of_keywords hr _ _⟩
  | _ => exact .inr ⟨by simp, inlined_of_plain (by simp) _ _⟩

/-! ## Keywords of inlined schemas -/

theorem lookup_filter {p : String × Json → Bool} {key : String} {fields : List (String × Json)}
    (h : ∀ value, p (key, value) = true) : (fields.filter p).lookup key = fields.lookup key := by
  induction fields with
  | nil => rfl
  | cons field fields ih =>
    obtain ⟨k, value⟩ := field
    rw [List.filter_cons, List.lookup_cons]
    by_cases hk : key = k
    · subst hk
      rw [if_pos (h value), List.lookup_cons]
      simp
    · rw [beq_false_of_ne hk, ← ih]
      split
      · rw [List.lookup_cons, beq_false_of_ne hk]
      · rfl

section Keywords

variable {document : Json} {fields : List (String × Json)} {key : String}
  (hr : (Json.object fields).get? "$ref" = none)
include hr

/-- All keywords but the title are still there. -/
theorem get?_inlined (hkey : key ≠ "title") (depth : Nat) :
    (inlined document (depth + 1) (.object fields)).get? key =
      ((Json.object fields).get? key).map (mapSchemas (inlined document depth) key) := by
  rw [inlined_of_keywords hr, Json.get?, Json.get?, Json.lookup_map, lookup_filter]
  intro value
  simp [isTitle, hkey]

theorem title_inlined (depth : Nat) :
    ((inlined document (depth + 1) (.object fields)).get? "title").bind Json.string? = none := by
  rw [inlined_of_keywords hr, Json.get?, Json.lookup_map]
  cases hlookup : (fields.filter fun field => !isTitle field).lookup "title" with
  | none => rfl
  | some value =>
    have hmem := (List.mem_filter.1 (Json.mem_of_lookup hlookup)).2
    cases value with
    | string text => cases hmem
    | _ => simp [mapSchemas, Json.string?]

end Keywords

/-- The second schema is what becomes of the first one. -/
def Inlines (document : Json) (depth : Nat) (node node' : Node) : Prop :=
  node'.value = inlined document depth node.value

theorem Inlines.title? (hi : Inlines context.document depth node node')
    (h : AllWithin context (RefersInside context) depth node) : node'.title? = none := by
  obtain ⟨last, less, hends, heq⟩ := exists_endsAt h
  rw [Node.title?, hi, heq]
  have hr := hends.get?
  cases hlast : last.value with
  | object fields =>
    rw [hlast] at hr
    exact title_inlined hr less
  | _ => rfl

/-- Where a keyword is read in another way if it holds no schema with keywords, the last schema that
its references lead to has keywords, or makes no difference. -/
structure KindsKept (context : Context) (node : Node) : Prop where
  /-- Other keys are not excluded by a reference. -/
  additionalProperties {additional last : Node} :
    node.field? "additionalProperties" = some additional → .inner additional ∈ demands node →
    EndsAt context additional last → last.value ≠ .bool false
  /-- A reference under `items` is to a schema for all of them. -/
  items {items last : Node} : node.field? "items" = some items → .inner items ∈ demands node →
    EndsAt context items last → ∀ values, last.value ≠ .array values
  /-- A reference under `additionalItems` is to a schema with keywords, or to one that says what is
  said without it. -/
  additionalItems {additional last : Node} :
    node.field? "additionalItems" = some additional → .inner additional ∈ demands node →
    EndsAt context additional last → (∃ fields, last.value = .object fields) ∨
      last.value = .bool true ∧ (boundsOf context.style node.value).greatest = none

theorem forall₂_items {f : Json → Json} {values : List Json} (hv : node.value = .array values)
    (hv' : node'.value = .array (values.map f)) :
    List.Forall₂ (fun child child' => child'.value = f child.value) node.items node'.items := by
  have hmap : node.items.map (fun child => f child.value) = node'.items.map Node.value := by
    have hcomp : (node.items.map fun child => f child.value) =
        (node.items.map Node.value).map f := by
      rw [List.map_map]
      rfl
    rw [hcomp, Node.values_items, Node.values_items, hv, hv']
    rfl
  exact (forall₂_iff_map_eq.2 hmap).imp fun _ _ h => h.symm

theorem forall₂_fields {f : Json → Json} {values : List (String × Json)}
    (hv : node.value = .object values)
    (hv' : node'.value = .object (values.map fun field => (field.1, f field.2))) :
    List.Forall₂ (fun field field' => field.1 = field'.1 ∧ field'.2.value = f field.2.value)
      node.fields node'.fields := by
  have hmap : node.fields.map (fun field => (field.1, f field.2.value)) =
      node'.fields.map fun field => (field.1, field.2.value) := by
    simp [Node.fields, hv, hv', Json.fields?, Node.below]
  refine (forall₂_iff_map_eq.2 hmap).imp fun field field' h => ?_
  obtain ⟨hkey, hvalue⟩ := Prod.mk.inj h
  exact ⟨hkey, hvalue.symm⟩

/-- The keywords that are no schemas stay as they are. -/
theorem mapSchemas_plain (f : Json → Json) {keyword : String} (hk : keyword ∈ plainKeywords)
    (value : Json) : mapSchemas f keyword value = value := by
  simp only [plainKeywords, List.mem_cons, List.not_mem_nil, or_false] at hk
  rcases hk with rfl | rfl | rfl | rfl | rfl | rfl | rfl | rfl | rfl <;>
    cases value <;> simp [mapSchemas]

/-- Where a schema stands, it is inlined. -/
theorem mapSchemas_schema (document : Json) (depth : Nat) {keyword : String}
    (hk : keyword ∈ ["items", "additionalItems", "additionalProperties"]) {value : Json}
    (hv : keyword = "items" → ∀ values, value ≠ .array values) :
    mapSchemas (inlined document depth) keyword value = inlined document depth value := by
  simp only [List.mem_cons, List.not_mem_nil, or_false] at hk
  cases value with
  | object fields => rcases hk with rfl | rfl | rfl <;> simp [mapSchemas]
  | array values =>
    rcases hk with rfl | rfl | rfl
    · exact absurd rfl (hv rfl values)
    · simp [mapSchemas, inlined_of_plain]
    · simp [mapSchemas, inlined_of_plain]
  | _ => simp [mapSchemas, inlined_of_plain]

section Pairs

variable {document : Json} {keyword : String} {value value' : Node}
  (h : value'.value = mapSchemas (inlined document depth) keyword value.value)
include h

theorem fieldsPair_inlined (hk : keyword = "properties") :
    FieldsPair (Inlines document depth) (fun _ _ => True) value value' := by
  subst hk
  cases hv : value.value with
  | object fields =>
    have hv' : value'.value =
        .object (fields.map fun field => (field.1, inlined document depth field.2)) := by
      simp [h, hv, mapSchemas]
    exact .fields hv hv' ((forall₂_fields hv hv').imp fun _ _ h => ⟨h.1, h.2, trivial⟩)
  | _ =>
    refine .none (by simp [hv]) ?_
    simp [h, hv, mapSchemas]

theorem listPair_inlined (hk : keyword ∈ ["anyOf", "oneOf", "allOf"]) :
    ListPair (Inlines document depth) value value' := by
  simp only [List.mem_cons, List.not_mem_nil, or_false] at hk
  cases hv : value.value with
  | array values =>
    have hv' : value'.value = .array (values.map (inlined document depth)) := by
      rcases hk with rfl | rfl | rfl <;> simp [h, hv, mapSchemas]
    exact .items hv hv' (forall₂_items hv hv')
  | _ =>
    refine .none (by simp [hv]) ?_
    rcases hk with rfl | rfl | rfl <;> simp [h, hv, mapSchemas]

theorem schemaPair_inlined (hk : keyword ∈ ["items", "additionalItems", "additionalProperties"])
    (hv : keyword = "items" → ∀ values, value.value ≠ .array values) :
    SchemaPair (Inlines document depth) value value' := by
  rw [mapSchemas_schema document depth hk hv] at h
  cases hvalue : value.value with
  | object fields => exact .keywords h hvalue
  | _ =>
    refine .plain h (by simp [hvalue]) (.of_eq ?_)
    rw [h]
    exact inlined_of_plain (by simp [hvalue]) _ _

theorem itemsPair_inlined (hk : keyword = "items") :
    ItemsPair (Inlines document depth) value value' := by
  by_cases harray : ∃ values, value.value = .array values
  · obtain ⟨values, hv⟩ := harray
    have hv' : value'.value = .array (values.map (inlined document depth)) := by
      simp [h, hv, hk, mapSchemas]
    exact .list hv hv' (forall₂_items hv hv')
  · have hv : ∀ values, value.value ≠ .array values := fun values hv => harray ⟨values, hv⟩
    exact .schema hv (schemaPair_inlined h (by simp [hk]) fun _ => hv)

end Pairs

section Fields

variable {fields : List (String × Json)} {key : String} {child' : Node}
  (hi : Inlines context.document (depth + 1) node node') (hv : node.value = .object fields)
  (hr : node.value.get? "$ref" = none)
include hi hv hr

/-- The value of a keyword becomes the value of the same keyword. -/
theorem rel_field? (hkey : key ≠ "title") :
    Option.Rel (fun child child' => child'.value =
      mapSchemas (inlined context.document depth) key child.value) (node.field? key)
      (node'.field? key) := by
  rw [hv] at hr
  rw [Node.field?, Node.field?, hi, hv, get?_inlined hr hkey]
  cases (Json.object fields).get? key with
  | none => exact .none
  | some value => exact .some rfl

/-- A schema under a keyword is replaced by one of the same kind. -/
theorem takesPlace_field? (hkey : key ∈ ["items", "additionalItems", "additionalProperties"])
    (h : node.field? key = some child) (h' : node'.field? key = some child')
    (hobject : ∃ fields, child.value = .object fields)
    (hw : AllWithin context (RefersInside context) depth child) :
    TakesPlace context child child'.value := by
  have hne : key ≠ "title" := by
    rintro rfl
    exact absurd hkey (by decide)
  have hrel := rel_field? hi hv hr hne
  rw [h, h'] at hrel
  cases hrel with
  | some hvalue =>
    obtain ⟨fields, hobject⟩ := hobject
    rw [mapSchemas_schema _ _ hkey (by simp [hobject])] at hvalue
    rw [hvalue]
    exact takesPlace_inlined hw

end Fields

/-- A schema without a reference says the same as what becomes of it. -/
theorem corresponds_inlined (hi : Inlines context.document (depth + 1) node node')
    (hr : node.value.get? "$ref" = none) (hk : KindsKept context node)
    (hw : ∀ child, .inner child ∈ demands node →
      AllWithin context (RefersInside context) depth child) :
    Corresponds (Inlines context.document depth) (fun _ _ => True) context node node' := by
  cases hv : node.value with
  | object fields =>
    have hr' : (Json.object fields).get? "$ref" = none := hv ▸ hr
    have hv' := hi.trans (hv ▸ inlined_of_keywords hr' context.document depth)
    refine .keywords hv hv' ⟨fun keyword hplain => ?same, ?properties,
      fun keyword hbranches => ?branches, ?items, fun keyword hadditional => ?additional, ?index,
      ?rest, ?list⟩
    case same =>
      have hkey : keyword ≠ "title" := by
        rintro rfl
        exact absurd hplain (by decide)
      rw [hi, hv, get?_inlined hr' hkey]
      cases (Json.object fields).get? keyword with
      | none => exact .none
      | some value =>
        rw [Option.map_some, mapSchemas_plain _ hplain]
        exact .some (.same value)
    case properties =>
      exact optionRel_imp (rel_field? hi hv hr (by decide)) fun _ _ h => fieldsPair_inlined h rfl
    case branches =>
      have hkey : keyword ≠ "title" := by
        rintro rfl
        exact absurd hbranches (by decide)
      exact optionRel_imp (rel_field? hi hv hr hkey) fun _ _ h => listPair_inlined h hbranches
    case items =>
      exact optionRel_imp (rel_field? hi hv hr (by decide)) fun _ _ h => itemsPair_inlined h rfl
    case additional =>
      have hkey : keyword ≠ "title" ∧ keyword ≠ "items" := by
        constructor <;> rintro rfl <;> exact absurd hadditional (by decide)
      have hschema : keyword ∈ ["items", "additionalItems", "additionalProperties"] := by
        simp only [List.mem_cons, List.not_mem_nil, or_false] at hadditional ⊢
        tauto
      exact optionRel_imp (rel_field? hi hv hr hkey.1) fun _ _ h =>
        schemaPair_inlined h hschema fun hitems => absurd hitems hkey.2
    case index =>
      intro additional additional' h h' hmem hobject
      obtain ⟨last, hends, hkind⟩ :=
        takesPlace_field? hi hv hr (by decide) h h' hobject (hw additional hmem)
      have hlast := hk.additionalProperties h hmem hends
      rcases hkind with ⟨-, fields', hvalue⟩ | ⟨-, hvalue⟩
      · simp [hvalue]
      · rwa [hvalue]
    case rest =>
      intro additional additional' h h' hmem hobject
      obtain ⟨last, hends, hkind⟩ :=
        takesPlace_field? hi hv hr (by decide) h h' hobject (hw additional hmem)
      rcases hkind with ⟨-, hvalue⟩ | ⟨hplain, hvalue⟩
      · exact .inl hvalue
      · rcases hk.additionalItems h hmem hends with ⟨fields', hkeywords⟩ | htrue
        · exact absurd hkeywords (hplain fields')
        · rw [hvalue]
          exact .inr htrue
    case list =>
      intro items items' h h' hmem hobject
      obtain ⟨last, hends, hkind⟩ :=
        takesPlace_field? hi hv hr (by decide) h h' hobject (hw items hmem)
      rcases hkind with ⟨-, fields', hvalue⟩ | ⟨-, hvalue⟩
      · simp [hvalue]
      · rw [hvalue]
        exact hk.items h hmem hends
  | _ =>
    refine .plain (by simp [hv]) (.of_eq ?_)
    rw [hi]
    exact inlined_of_plain (by simp [hv]) _ _

end LintTypes.Schema
