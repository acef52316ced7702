import LintTypes.Proofs.DecimalForms
import LintTypes.Proofs.HoistingRuns
import LintTypes.Proofs.Rebasing
import LintTypes.Proofs.TypeParts

/-!
# Types of schemas can be written

A property of types that holds of the types which schemas begin with, and that is kept by each way
to put types together, holds of all types of schemas. That a type can be written is such a property,
as long as no schema writes its type out as text.
-/

namespace LintTypes.Schema

open Source

/-- The property is kept by all that is done to make types of schemas. -/
structure Kept (good : TypeExpr → Prop) : Prop where
  /-- Reserved words have it, -/
  keyword (word : Keyword) : good (.keyword word)
  /-- strings, -/
  string (text : String) : good (.literal (.string text))
  /-- numbers, -/
  number (number : JsonNumber) : good (.literal (.number number.text))
  /-- truth values, -/
  bool (value : Bool) : good (.literal (.bool value))
  /-- and names of declarations. -/
  named {name : String} : Names.IsTitleName name → good (.named name)
  /-- Arrays keep it, -/
  array {element : TypeExpr} : good element → good (.array element)
  /-- tuples, -/
  tuple {slots : List Slot} : (∀ slot ∈ slots, good slot.type) → good (.tuple slots)
  /-- objects, -/
  object {members : List Member} :
    (∀ member ∈ members, (∃ name, member.key = .named name) ∨ member.key = .index "k" .string) →
    (∀ member ∈ members, good member.type) → good (.object members)
  /-- unions, -/
  unionOf {types : List TypeExpr} : (∀ type ∈ types, good type) → good (.unionOf types)
  /-- and intersections. -/
  intersectionOf {types : List TypeExpr} :
    (∀ type ∈ types, good type) → good (.intersectionOf types)

theorem two_le_length {α : Type} {xs : List α} (hnil : xs ≠ []) (hone : ∀ x, xs ≠ [x]) :
    2 ≤ xs.length := by
  match xs with
  | [] => exact absurd rfl hnil
  | [x] => exact absurd rfl (hone x)
  | _ :: _ :: _ => simp

/-- A union is `never`, one member or a union of several, and its members are those of the types. -/
theorem unionOf_cases {Q good : TypeExpr → Prop} (hnever : good .never)
    (hone : ∀ type, Q type → good type)
    (hmany : ∀ members, 2 ≤ members.length → (∀ type ∈ members, Q type) → good (.union members))
    {types : List TypeExpr} (h : ∀ type ∈ types, ∀ member ∈ type.unionMembers, Q member) :
    good (.unionOf types) := by
  have hmembers : ∀ member ∈ types.flatMap TypeExpr.unionMembers, Q member := by
    exact List.forall_mem_flatMap.2 h
  unfold TypeExpr.unionOf
  split
  · exact hnever
  · rename_i type hsingle
    exact hone type (hmembers type (by simp [hsingle]))
  · rename_i hnil hnone
    exact hmany _ (two_le_length hnil hnone) hmembers

/-- An intersection is `unknown`, one member or an intersection of several, and its members are
those of the types. -/
theorem intersectionOf_cases {Q good : TypeExpr → Prop} (hunknown : good .unknown)
    (hone : ∀ type, Q type → good type)
    (hmany : ∀ members, 2 ≤ members.length → (∀ type ∈ members, Q type) →
      good (.intersection members))
    {types : List TypeExpr} (h : ∀ type ∈ types, ∀ member ∈ type.intersectionMembers, Q member) :
    good (.intersectionOf types) := by
  have hmembers : ∀ member ∈ types.flatMap TypeExpr.intersectionMembers, Q member := by
    exact List.forall_mem_flatMap.2 h
  unfold TypeExpr.intersectionOf
  split
  · exact hunknown
  · rename_i type hsingle
    exact hone type (hmembers type (by simp [hsingle]))
  · rename_i hnil hnone
    exact hmany _ (two_le_length hnil hnone) hmembers

variable {good : TypeExpr → Prop} {context : Context} {typed : Node → TypeExpr → Prop}
  {inside : Node → Prop} {node : Node} {type : TypeExpr}

/-! ## One schema -/

section

variable (hk : Kept good)
include hk

theorem Kept.unknown (context : Context) : good context.unknown := by
  unfold Context.unknown
  split
  · exact hk.keyword _
  · exact hk.keyword _

/-- A tuple of good types is good, -/
theorem Kept.ofSlots {types : List TypeExpr} {rest : Option TypeExpr}
    (ht : ∀ type ∈ types, good type) (hr : ∀ type ∈ rest, good type) :
    good (ArrayType.ofSlots types rest) := by
  refine hk.tuple fun slot hslot => ?_
  rcases List.mem_append.1 hslot with hslot | hslot
  · obtain ⟨type, htype, rfl⟩ := List.mem_map.1 hslot
    exact ht type htype
  · obtain ⟨type, htype, rfl⟩ := Option.map_eq_some_iff.1 (Option.mem_toList.1 hslot)
    exact hk.array (hr type htype)

omit hk in
theorem complete_good {filler : TypeExpr} {types : List TypeExpr} (bounds : ArrayType.Bounds)
    {rest : Option TypeExpr} (hf : good filler) (ht : ∀ type ∈ types, good type)
    (hr : ∀ type ∈ rest, good type) :
    (∀ type ∈ (ArrayType.complete filler types bounds rest).1, good type) ∧
      ∀ type ∈ (ArrayType.complete filler types bounds rest).2, good type := by
  unfold ArrayType.complete
  split
  · exact ⟨ht, hr⟩
  · refine ⟨ht, fun type htype => ?_⟩
    split at htype
    · cases htype
      exact hf
    · cases htype
  · split
    · split
      · refine ⟨fun type htype => ?_, by simp⟩
        rcases List.mem_append.1 htype with htype | htype
        · exact ht type htype
        · rw [List.eq_of_mem_replicate htype]
          exact hf
      · refine ⟨ht, ?_⟩
        rintro type ⟨⟩
        exact hf
    · exact ⟨ht, by simp⟩

/-- and so are the array types of good items. -/
theorem Kept.ofItems {filler : TypeExpr} {types : List TypeExpr} {bounds : ArrayType.Bounds}
    {rest : Option TypeExpr} (hf : good filler) (ht : ∀ type ∈ types, good type)
    (hr : ∀ type ∈ rest, good type) : good (ArrayType.ofItems filler types bounds rest) := by
  obtain ⟨hslots, hlast⟩ := complete_good bounds hf ht hr
  unfold ArrayType.ofItems
  generalize ArrayType.complete filler types bounds rest = completed at hslots hlast ⊢
  obtain ⟨slots, last⟩ := completed
  dsimp only at hslots hlast ⊢
  split
  · exact hk.ofSlots hslots hlast
  · refine hk.unionOf fun type htype => ?_
    rcases List.mem_append.1 htype with htype | htype
    · obtain ⟨length, -, rfl⟩ := List.mem_map.1 htype
      exact hk.ofSlots (fun type h => hslots type (List.mem_of_mem_take h)) (by simp)
    · rw [List.mem_singleton.1 htype]
      exact hk.ofSlots hslots hlast

/-- An array type over a good item is good. -/
theorem Kept.uniform {filler item : TypeExpr} {bounds : ArrayType.Bounds} (hf : good filler)
    (hi : good item) : good (ArrayType.uniform filler item bounds) := by
  unfold ArrayType.uniform
  extract_lets count
  split
  · exact hk.array hi
  · refine hk.ofItems hf (fun type htype => ?_) fun type htype => ?_
    · rw [List.eq_of_mem_replicate htype]
      exact hi
    · split at htype
      · cases htype
        exact hi
      · cases htype

/-- The type of a literal is good. -/
theorem Kept.literal {listed : Json} (ht : LiteralTyped listed type) : good type := by
  cases ht with
  | string text => exact hk.string text
  | number number => exact hk.number number
  | bool value => exact hk.bool value
  | null => exact hk.keyword _

/-! ## Keywords -/

variable (hc : Closed context inside) (hn : inside node)
  (ha : ∀ node type, inside node → typed node type → good type)
include hc hn ha

/-- The type of an object is good if those of the schemas inside are, -/
theorem Kept.object_typed (ht : ObjectTyped context typed node type) : good type := by
  obtain ⟨hm, ho⟩ := ht
  rename_i members others
  have hmembers : ∀ member ∈ members, (∃ name, member.key = .named name) ∧ good member.type := by
    cases hm with
    | absent => simp
    | present hfield hv hm =>
      intro member hmember
      obtain ⟨⟨key, child⟩, hchild, type, htype, rfl⟩ := (forall₂_exists hm).2 member hmember
      exact ⟨⟨key, rfl⟩, ha child type (hc.fields (hc.field hn hfield) hchild) htype⟩
  have hothers : ∀ member ∈ others, ∃ type, member = .anyKey type ∧ good type := by
    cases ho with
    | absent =>
      intro member hmember
      split at hmember
      · exact ⟨_, List.mem_singleton.1 hmember, hk.unknown context⟩
      · cases hmember
    | none => simp
    | anything => exact fun member hmember =>
        ⟨_, List.mem_singleton.1 hmember, hk.unknown context⟩
    | some h hv ht => exact fun member hmember =>
        ⟨_, List.mem_singleton.1 hmember, ha _ _ (hc.field hn h) ht⟩
  refine hk.object (fun member hmember => ?_) fun member hmember => ?_
  · rcases List.mem_append.1 hmember with hmember | hmember
    · exact .inl (hmembers member hmember).1
    · obtain ⟨type, rfl, -⟩ := hothers member hmember
      exact .inr rfl
  · rcases List.mem_append.1 hmember with hmember | hmember
    · exact (hmembers member hmember).2
    · obtain ⟨type, rfl, htype⟩ := hothers member hmember
      exact htype

/-- and so is the type of an array. -/
theorem Kept.array_typed (ht : ArrayTyped context typed node type) : good type := by
  cases ht with
  | absent => exact hk.uniform (hk.unknown context) (hk.unknown context)
  | each h hv ht => exact hk.uniform (hk.unknown context) (ha _ _ (hc.field hn h) ht)
  | list h hv ht hr =>
    refine hk.ofItems (hk.unknown context) (fun type htype => ?_) fun type htype => ?_
    · rename_i items values types rest
      have hmem : type ∈ types := by
        split at htype
        · exact List.mem_of_mem_take htype
        · exact htype
      obtain ⟨child, hchild, htyped⟩ := (forall₂_exists ht).2 type hmem
      exact ha child type (hc.items (hc.field hn h) hchild) htyped
    · cases hr with
      | absent | anything =>
        split at htype
        · cases htype
          exact hk.unknown context
        · cases htype
      | some h hv ht =>
        cases htype
        exact ha _ _ (hc.field hn h) ht
      | none => cases htype

theorem Kept.name_typed {name : String} (ht : NameTyped context typed node name type) :
    good type := by
  cases ht with
  | object h => exact hk.object_typed hc hn ha h
  | array h => exact hk.array_typed hc hn ha h
  | any => exact hk.unknown context
  | _ => exact hk.keyword _

/-- The type of a schema by its kind is good if those of the schemas inside are. -/
theorem Kept.kind_typed (ht : KindTyped context typed node type) : good type := by
  cases ht with
  | name h ht => exact hk.name_typed hc hn ha ht
  | names h ht =>
    refine hk.unionOf fun type htype => ?_
    obtain ⟨value, -, name, -, hname⟩ := (forall₂_exists ht).2 type htype
    exact hk.name_typed hc hn ha hname
  | object h hkind ht => exact hk.object_typed hc hn ha ht
  | array h hnone hkind ht => exact hk.array_typed hc hn ha ht
  | anything => exact hk.unknown context

omit hk in
/-- The branches of a schema have good types. -/
theorem good_of_branches {keyword : String} {types : List TypeExpr}
    (ht : BranchesTyped typed node keyword types) : ∀ type ∈ types, good type := by
  obtain ⟨h, hv, ht⟩ := ht
  intro type htype
  obtain ⟨child, hchild, htyped⟩ := (forall₂_exists ht).2 type htype
  exact ha child type (hc.items (hc.field hn h) hchild) htyped

/-- One schema, given what is inside it and what it refers to. -/
theorem Kept.schema_typed (hname : Names.IsTitleName context.name)
    (hwritten : ∀ text, (node.value.get? "tsType").bind Json.string? = some text →
      good (writtenType text))
    (ht : SchemaTyped context typed node type) : good type := by
  cases ht with
  | anything => exact hk.unknown context
  | nothing => exact hk.keyword _
  | reference h hfollowed =>
    cases hfollowed with
    | document => exact hk.named hname
    | node htarget ht => exact ha _ _ (hc.target htarget) ht
  | written hr h => exact hwritten _ h
  | enum hp h ht =>
    refine hk.unionOf fun type htype => ?_
    obtain ⟨value, -, hvalue⟩ := (forall₂_exists ht).2 type htype
    exact hk.literal hvalue
  | const hp h ht => exact hk.literal ht
  | anyOf hp ht => exact hk.unionOf (good_of_branches hc hn ha ht)
  | oneOf hp ht => exact hk.unionOf (good_of_branches hc hn ha ht)
  | allOf hp ht => exact hk.intersectionOf (good_of_branches hc hn ha ht)
  | kind hv hp ht => exact hk.kind_typed hc hn ha ht

end

/-! ## Documents -/

/-- No type that is written out as text lacks the property. -/
def WrittenTypesKept (good : TypeExpr → Prop) (inside : Node → Prop) : Prop :=
  ∀ node, inside node → ∀ text, (node.value.get? "tsType").bind Json.string? = some text →
    good (writtenType text)

/-- At every depth the types are good: a schema with a title is called by a name, and the others are
put together from good types. -/
theorem Kept.typed_at (hk : Kept good) (hc : Closed context inside)
    (hw : WrittenTypesKept good inside) (hname : Names.IsTitleName context.name) {names : Names}
    (hnames : ∀ path name, names path = some name → Names.IsTitleName name) (depth : Nat)
    (node : Node) (type : TypeExpr) (hn : inside node) (ht : Typed context names depth node type) :
    good type := by
  induction depth generalizing node type with
  | zero => cases ht
  | succ depth ih =>
    cases htitle : node.title? with
    | some title =>
      obtain ⟨name, hgiven, rfl⟩ := (typed_titled htitle).1 ht
      exact hk.named (hnames _ name hgiven)
    | none =>
      exact hk.schema_typed hc hn ih hname (hw node hn) ((typed_untitled htitle).1 ht)

/-- All that is declared for a document is declared by a name for titles, with a type that has the
property. -/
theorem Kept.declarations (hk : Kept good) {document : Json} {name : String} {style : Style}
    (hc : Closed ⟨document, name, style⟩ inside) (hroot : inside (.root document))
    (hw : WrittenTypesKept good inside) (hname : Names.IsTitleName name)
    {declarations : Declarations}
    (h : Schema.declarations document name style = .ok declarations) :
    ∀ declaration ∈ declarations, ∃ name type comment, Names.IsTitleName name ∧ good type ∧
      declaration = .ofType name type comment := by
  obtain ⟨names, type, hoisted, hdecl, rfl⟩ := declarations_spec hc hroot h
  have hnames : ∀ path name, names path = some name → Names.IsTitleName name :=
    fun path name hgiven => (hdecl.declared path name hgiven).1
  have htyped := hk.typed_at hc hw hname hnames
  intro declaration hmem
  rcases List.mem_cons.1 hmem with rfl | hmem
  · obtain ⟨depth, ht⟩ := hdecl.typed
    exact ⟨name, type, _, hname, hk.schema_typed hc hroot (htyped depth) hname (hw _ hroot) ht, rfl⟩
  · obtain ⟨node, hn, hd⟩ := hdecl.originate declaration hmem
    generalize hgiven : declaration.name = given at hd
    obtain ⟨hnamed, ht⟩ := hd
    exact ⟨given, _, _, hnames _ _ hnamed,
      hk.schema_typed hc hn (htyped _) hname (hw node hn) ht, rfl⟩

/-! ## Parts of unions and intersections -/

/-- What is asked of all parts of a type is kept by unions if it asks of a union no more than that
it has two members and, maybe, that these are no unions. -/
theorem forall_parts_unionOf {P : TypeExpr → Prop} (apart : Prop) (hnever : P .never)
    (hunion : ∀ members, P (.union members) ↔
      2 ≤ members.length ∧ (apart → ∀ type ∈ members, type.isUnion = false))
    {types : List TypeExpr} (h : ∀ type ∈ types, ∀ part ∈ type.parts, P part) :
    ∀ part ∈ (TypeExpr.unionOf types).parts, P part := by
  let member (type : TypeExpr) : Prop :=
    (∀ part ∈ type.parts, P part) ∧ (apart → type.isUnion = false)
  have hmembers : ∀ type ∈ types, ∀ type' ∈ type.unionMembers, member type' := by
    intro type htype
    have hparts := h type htype
    cases type with
    | union members =>
      obtain ⟨hself, hinside⟩ := forall_parts_union.1 hparts
      obtain ⟨-, hapart⟩ := (hunion members).1 hself
      exact fun type' hmem => ⟨hinside type' hmem, fun ha => hapart ha type' hmem⟩
    | _ => exact List.forall_mem_singleton.2 ⟨hparts, fun _ => rfl⟩
  refine unionOf_cases (Q := member) (forall_parts_keyword.2 hnever) (fun _ hm => hm.1)
    (fun members hlength hm => ?_) hmembers
  have hself : P (.union members) := (hunion members).2 ⟨hlength, fun ha type hmem =>
    (hm type hmem).2 ha⟩
  exact forall_parts_union.2 ⟨hself, fun type hmem => (hm type hmem).1⟩

/-- The same of intersections. -/
theorem forall_parts_intersectionOf {P : TypeExpr → Prop} (apart : Prop) (hunknown : P .unknown)
    (hintersection : ∀ members, P (.intersection members) ↔
      2 ≤ members.length ∧ (apart → ∀ type ∈ members, type.isIntersection = false))
    {types : List TypeExpr} (h : ∀ type ∈ types, ∀ part ∈ type.parts, P part) :
    ∀ part ∈ (TypeExpr.intersectionOf types).parts, P part := by
  let member (type : TypeExpr) : Prop :=
    (∀ part ∈ type.parts, P part) ∧ (apart → type.isIntersection = false)
  have hmembers : ∀ type ∈ types, ∀ type' ∈ type.intersectionMembers, member type' := by
    intro type htype
    have hparts := h type htype
    cases type with
    | intersection members =>
      obtain ⟨hself, hinside⟩ := forall_parts_intersection.1 hparts
      obtain ⟨-, hapart⟩ := (hintersection members).1 hself
      exact fun type' hmem => ⟨hinside type' hmem, fun ha => hapart ha type' hmem⟩
    | _ => exact List.forall_mem_singleton.2 ⟨hparts, fun _ => rfl⟩
  refine intersectionOf_cases (Q := member) (forall_parts_keyword.2 hunknown) (fun _ hm => hm.1)
    (fun members hlength hm => ?_) hmembers
  have hself : P (.intersection members) := (hintersection members).2 ⟨hlength, fun ha type hmem =>
    (hm type hmem).2 ha⟩
  exact forall_parts_intersection.2 ⟨hself, fun type hmem => (hm type hmem).1⟩

/-! ## Types that can be written -/

section

variable {strict : Bool}

theorem writable_unionOf {types : List TypeExpr} (h : ∀ type ∈ types, type.Writable strict) :
    (TypeExpr.unionOf types).Writable strict :=
  forall_parts_unionOf True trivial
    (fun _ => and_congr_right' ⟨fun hne _ => hne, fun hne => hne trivial⟩) h

theorem writable_intersectionOf {types : List TypeExpr}
    (h : ∀ type ∈ types, type.Writable strict) :
    (TypeExpr.intersectionOf types).Writable strict :=
  forall_parts_intersectionOf (strict = true) trivial (fun _ => Iff.rfl) h

/-- Types that can be written are put together to types that can be. -/
theorem kept_writable (strict : Bool) : Kept (TypeExpr.Writable strict) where
  keyword := by simp [TypeExpr.Writable, TypeExpr.parts, TypeExpr.Fit]
  string := by simp [TypeExpr.Writable, TypeExpr.parts, TypeExpr.Fit]
  number := fun number => TypeExpr.writable_literal.2 (isNumber_text number)
  bool := by simp [TypeExpr.Writable, TypeExpr.parts, TypeExpr.Fit]
  named := fun h =>
    TypeExpr.writable_reference.2 ⟨⟨.identifier h.isIdentifier, h.not_reserved⟩, by simp⟩
  array := TypeExpr.writable_array.2
  tuple := TypeExpr.writable_tuple.2
  object := by
    intro members hkeys htypes
    refine TypeExpr.writable_object.2 fun member hmember => ?_
    have htype := htypes member hmember
    obtain ⟨key, type, _, _, _⟩ := member
    rcases hkeys _ hmember with ⟨name, rfl⟩ | rfl
    · exact ⟨trivial, htype⟩
    · exact ⟨⟨by decide, by simp [TypeExpr.parts, TypeExpr.isFilledObject]⟩,
        List.forall_mem_cons.2 ⟨trivial, htype⟩⟩
  unionOf := writable_unionOf
  intersectionOf := writable_intersectionOf

/-- A declaration that was made of a type can be written if the type can. -/
theorem writable_ofType {name : String} (hname : Names.IsTitleName name)
    (h : type.Writable strict) (comment : Option String) :
    (Declaration.ofType name type comment).Writable strict := by
  unfold Declaration.ofType
  split
  · exact ⟨hname.isIdentifier, by simp, h⟩
  · exact ⟨hname.isIdentifier, h⟩

/-- Nodes without written types. -/
theorem closed_lacks {context : Context} (h : context.document.Lacks "tsType") :
    Closed context fun node => node.value.Lacks "tsType" where
  field := fun {node child key} hn hchild => by
    obtain ⟨value, hvalue, rfl⟩ := Option.map_eq_some_iff.1 hchild
    exact @Json.Lacks.step? _ _ hn (.field key) _ hvalue
  fields := fun {node child key} hn hchild => by
    obtain ⟨⟨_, value⟩, hmem, heq⟩ := List.mem_map.1 hchild
    cases heq
    cases hv : node.value with
    | object fields =>
      rw [hv] at hn hmem
      exact (Json.lacks_object.1 hn).2 _ hmem
    | _ =>
      rw [hv] at hmem
      cases hmem
  items := fun {node child} hn hchild => by
    have hvalue : child.value ∈ node.value.items?.getD [] := by
      rw [← Node.values_items]
      exact List.mem_map_of_mem hchild
    cases hv : node.value with
    | array items =>
      rw [hv] at hn hvalue
      exact Json.lacks_array.1 hn _ hvalue
    | _ =>
      rw [hv] at hvalue
      cases hvalue
  target := fun htarget => by
    obtain ⟨pointer, -, hresolve⟩ := target_node htarget
    exact Json.at?_kept (fun _ _ _ h hs => h.step? hs) h (Pointer.resolve?_inDocument hresolve)

theorem closed_all (context : Context) : Closed context fun _ => True :=
  ⟨fun _ _ => trivial, fun _ _ => trivial, fun _ _ => trivial, fun _ => trivial⟩

/-- Something is declared for every document: itself. -/
theorem declarations_ne_nil {document : Json} {name : String} {style : Style}
    {declarations : Declarations}
    (hd : Schema.declarations document name style = .ok declarations) : declarations ≠ [] := by
  obtain ⟨_, _, _, -, rfl⟩ := declarations_spec (closed_all ⟨document, name, style⟩) trivial hd
  simp

/-- The declarations of a document without written types can be printed. -/
theorem declarations_printable {document : Json} {name : String} {style : Style}
    (h : document.Lacks "tsType") (hname : Names.IsTitleName name) {declarations : Declarations}
    (hd : Schema.declarations document name style = .ok declarations) :
    declarations ≠ [] ∧ ∀ declaration ∈ declarations, declaration.Printable := by
  have hc := @closed_lacks ⟨document, name, style⟩ h
  refine ⟨declarations_ne_nil hd, fun declaration hmem => ?_⟩
  · have hw : WrittenTypesKept (TypeExpr.Writable true) fun node => node.value.Lacks "tsType" := by
      intro node hn text htext
      rw [hn.get?] at htext
      cases htext
    obtain ⟨name, type, comment, hname, htype, rfl⟩ :=
      (kept_writable true).declarations hc h hw hname hd declaration hmem
    exact writable_ofType hname htype comment

end

end LintTypes.Schema
