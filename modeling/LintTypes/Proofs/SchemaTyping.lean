import LintTypes.Proofs.Nodes
import LintTypes.Schema.Types
import Mathlib.Data.List.Forall2

/-!
# How schemas are typed

`SchemaTyped` says which type a schema has, keyword by keyword, given a relation for the schemas
inside it and those that it refers to. Everything that happens while a type is worked out is left
out of it: the order, the depth and what is declared on the way.

`Typed` ties the knot. A titled schema has the name that it was given as its type, any other one the
type that its keywords make, to a depth. That type is the only one (`Typed.unique`).
-/

namespace LintTypes.Schema

variable {context : Context} {node : Node} {type : TypeExpr}

/-- Each item of two related lists has a partner in the other one. -/
theorem forall₂_exists {α β : Type} {R : α → β → Prop} {xs : List α} {ys : List β}
    (h : List.Forall₂ R xs ys) :
    (∀ x ∈ xs, ∃ y ∈ ys, R x y) ∧ ∀ y ∈ ys, ∃ x ∈ xs, R x y := by
  induction h with
  | nil => simp
  | cons h _ ih =>
    constructor
    · intro x hx
      rcases List.mem_cons.1 hx with rfl | hx
      · exact ⟨_, List.mem_cons_self .., h⟩
      · obtain ⟨y, hy, hr⟩ := ih.1 x hx
        exact ⟨y, List.mem_cons_of_mem _ hy, hr⟩
    · intro y hy
      rcases List.mem_cons.1 hy with rfl | hy
      · exact ⟨_, List.mem_cons_self .., h⟩
      · obtain ⟨x, hx, hr⟩ := ih.2 y hy
        exact ⟨x, List.mem_cons_of_mem _ hx, hr⟩

/-- The literal types. -/
inductive LiteralTyped : Json → TypeExpr → Prop where
  | string (text : String) : LiteralTyped (.string text) (.literal (.string text))
  | number (number : JsonNumber) : LiteralTyped (.number number) (.literal (.number number.text))
  | bool (value : Bool) : LiteralTyped (.bool value) (.literal (.bool value))
  | null : LiteralTyped .null .null

/-- Only `#` refers to the document. -/
theorem target_document {reference : String} (h : target context reference = .ok .document) :
    reference.toList = ['#'] := by
  unfold target at h
  split at h
  · assumption
  · split at h <;> cases h
  · cases h

/-- Any other reference goes through a pointer that leads somewhere. -/
theorem target_node {reference : String} (h : target context reference = .ok (.node node)) :
    ∃ pointer, reference.toList = '#' :: pointer ∧
      Pointer.resolve? context.document pointer = some node := by
  unfold target at h
  split at h
  · cases h
  · rename_i pointer _ hreference
    split at h
    · rename_i hresolve
      cases h
      exact ⟨pointer, hreference, hresolve⟩
    · cases h
  · cases h

/-- What a reference leads to has this type; the document itself has its name. -/
inductive Followed (context : Context) (typed : Node → TypeExpr → Prop) (reference : String) :
    TypeExpr → Prop where
  | document (h : target context reference = .ok .document) :
      Followed context typed reference (.named context.name)
  | node {node : Node} {type : TypeExpr} (h : target context reference = .ok (.node node))
      (ht : typed node type) : Followed context typed reference type

section Keywords

variable (context : Context) (typed : Node → TypeExpr → Prop) (node : Node)

/-! ## Objects -/

/-- The member for one property. -/
def PropertyTyped (field : String × Node) (member : Member) : Prop :=
  ∃ type, typed field.2 type ∧
    member = .property field.1 type (!(requiredKeys node.value).contains field.1)
      (comment? field.2.value)

/-- The members for the properties. -/
inductive PropertiesTyped : List Member → Prop where
  | absent (h : node.field? "properties" = none) : PropertiesTyped []
  | present {properties : Node} {fields : List (String × Json)} {members : List Member}
      (h : node.field? "properties" = some properties) (hv : properties.value = .object fields)
      (hm : List.Forall₂ (PropertyTyped typed node) properties.fields members) :
      PropertiesTyped members

/-- The member for the other keys. -/
inductive OthersTyped : List Member → Prop where
  | absent (h : node.field? "additionalProperties" = none) :
      OthersTyped (if context.style.additionalProperties then [.anyKey context.unknown] else [])
  | none {additional : Node} (h : node.field? "additionalProperties" = some additional)
      (hv : additional.value = .bool false) : OthersTyped []
  | anything {additional : Node} (h : node.field? "additionalProperties" = some additional)
      (hv : additional.value = .bool true) : OthersTyped [.anyKey context.unknown]
  | some {additional : Node} {fields : List (String × Json)} {type : TypeExpr}
      (h : node.field? "additionalProperties" = some additional)
      (hv : additional.value = .object fields) (ht : typed additional type) :
      OthersTyped [.anyKey type]

/-- An object schema. -/
inductive ObjectTyped : TypeExpr → Prop where
  | object {members others : List Member} (hm : PropertiesTyped typed node members)
      (ho : OthersTyped context typed node others) : ObjectTyped (.object (members ++ others))

/-! ## Arrays -/

/-- The items behind those with a schema of their own. -/
inductive RestTyped (bounds : ArrayType.Bounds) : Option TypeExpr → Prop where
  | absent (h : node.field? "additionalItems" = none) :
      RestTyped bounds (if bounds.greatest.isNone then some context.unknown else none)
  | anything {additional : Node} (h : node.field? "additionalItems" = some additional)
      (hv : additional.value = .bool true) :
      RestTyped bounds (if bounds.greatest.isNone then some context.unknown else none)
  | some {additional : Node} {fields : List (String × Json)} {type : TypeExpr}
      (h : node.field? "additionalItems" = some additional)
      (hv : additional.value = .object fields) (ht : typed additional type) :
      RestTyped bounds (some type)
  | none {additional : Node} (h : node.field? "additionalItems" = some additional)
      (ht : additional.value ≠ .bool true) (ho : ∀ fields, additional.value ≠ .object fields) :
      RestTyped bounds none

/-- An array schema. -/
inductive ArrayTyped : TypeExpr → Prop where
  | absent (h : node.field? "items" = none) :
      ArrayTyped
        (ArrayType.uniform context.unknown context.unknown (boundsOf context.style node.value))
  | each {items : Node} {type : TypeExpr} (h : node.field? "items" = some items)
      (hv : ∀ values, items.value ≠ .array values) (ht : typed items type) :
      ArrayTyped (ArrayType.uniform context.unknown type (boundsOf context.style node.value))
  | list {items : Node} {values : List Json} {types : List TypeExpr} {rest : Option TypeExpr}
      (h : node.field? "items" = some items) (hv : items.value = .array values)
      (ht : List.Forall₂ typed items.items types)
      (hr : RestTyped context typed node (boundsOf context.style node.value) rest) :
      ArrayTyped
        (ArrayType.ofItems context.unknown
          (match (boundsOf context.style node.value).greatest with
            | some greatest => types.take greatest
            | none => types)
          (boundsOf context.style node.value) rest)

/-! ## Kinds -/

/-- A schema under a type name. -/
inductive NameTyped : String → TypeExpr → Prop where
  | string : NameTyped "string" .string
  | number : NameTyped "number" .number
  | integer : NameTyped "integer" .number
  | boolean : NameTyped "boolean" .boolean
  | null : NameTyped "null" .null
  | any : NameTyped "any" context.unknown
  | object {type : TypeExpr} (h : ObjectTyped context typed node type) : NameTyped "object" type
  | array {type : TypeExpr} (h : ArrayTyped context typed node type) : NameTyped "array" type

/-- A schema with none of the keywords in front of `type`. -/
inductive KindTyped : TypeExpr → Prop where
  | name {name : String} {type : TypeExpr}
      (h : node.value.get? "type" = some (.string name))
      (ht : NameTyped context typed node name type) : KindTyped type
  | names {names : List Json} {types : List TypeExpr}
      (h : node.value.get? "type" = some (.array names))
      (ht : List.Forall₂ (fun value type => ∃ name, value = .string name ∧
        NameTyped context typed node name type) names types) : KindTyped (.unionOf types)
  | object {type : TypeExpr} (h : node.value.get? "type" = none)
      (hk : (keywordsOfObjects.any fun keyword => (node.value.get? keyword).isSome) = true)
      (ht : ObjectTyped context typed node type) : KindTyped type
  | array {type : TypeExpr} (h : node.value.get? "type" = none)
      (hn : (keywordsOfObjects.any fun keyword => (node.value.get? keyword).isSome) = false)
      (hk : (keywordsOfArrays.any fun keyword => (node.value.get? keyword).isSome) = true)
      (ht : ArrayTyped context typed node type) : KindTyped type
  | anything (h : node.value.get? "type" = none)
      (hn : (keywordsOfObjects.any fun keyword => (node.value.get? keyword).isSome) = false)
      (hk : (keywordsOfArrays.any fun keyword => (node.value.get? keyword).isSome) = false) :
      KindTyped context.unknown

/-! ## Schemas -/

/-- A schema does not speak through any of these keywords, nor through a type that is written
out. -/
structure IsPast (schema : Json) (keywords : List String) : Prop where
  /-- There is no text of a type. -/
  written : (schema.get? "tsType").bind Json.string? = none
  /-- There is none of the keywords. -/
  absent : ∀ keyword ∈ keywords, schema.get? keyword = none

/-- The branches under a keyword. -/
inductive BranchesTyped (keyword : String) : List TypeExpr → Prop where
  | branches {branches : Node} {values : List Json} {types : List TypeExpr}
      (h : node.field? keyword = some branches) (hv : branches.value = .array values)
      (ht : List.Forall₂ typed branches.items types) : BranchesTyped keyword types

/-- A schema, its title aside. It speaks through the first of its keywords. -/
inductive SchemaTyped : TypeExpr → Prop where
  | anything (h : node.value = .bool true) : SchemaTyped context.unknown
  | nothing (h : node.value = .bool false) : SchemaTyped .never
  | reference {reference : String} {type : TypeExpr}
      (h : node.value.get? "$ref" = some (.string reference))
      (ht : Followed context typed reference type) : SchemaTyped type
  | written {text : String} (hr : node.value.get? "$ref" = none)
      (h : (node.value.get? "tsType").bind Json.string? = some text) :
      SchemaTyped (writtenType text)
  | enum {values : List Json} {types : List TypeExpr} (hp : IsPast node.value ["$ref"])
      (h : node.value.get? "enum" = some (.array values))
      (ht : List.Forall₂ LiteralTyped values types) : SchemaTyped (.unionOf types)
  | const {value : Json} {type : TypeExpr} (hp : IsPast node.value ["$ref", "enum"])
      (h : node.value.get? "const" = some value) (ht : LiteralTyped value type) :
      SchemaTyped type
  | anyOf {types : List TypeExpr} (hp : IsPast node.value ["$ref", "enum", "const"])
      (ht : BranchesTyped typed node "anyOf" types) : SchemaTyped (.unionOf types)
  | oneOf {types : List TypeExpr} (hp : IsPast node.value ["$ref", "enum", "const", "anyOf"])
      (ht : BranchesTyped typed node "oneOf" types) : SchemaTyped (.unionOf types)
  | allOf {types : List TypeExpr}
      (hp : IsPast node.value ["$ref", "enum", "const", "anyOf", "oneOf"])
      (ht : BranchesTyped typed node "allOf" types) : SchemaTyped (.intersectionOf types)
  | kind {fields : List (String × Json)} {type : TypeExpr} (hv : node.value = .object fields)
      (hp : IsPast node.value ["$ref", "enum", "const", "anyOf", "oneOf", "allOf"])
      (ht : KindTyped context typed node type) : SchemaTyped type

end Keywords

theorem IsPast.ref {schema : Json} {keywords : List String}
    (h : IsPast schema ("$ref" :: keywords)) : schema.get? "$ref" = none :=
  h.absent _ (List.mem_cons_self ..)

/-- A keyword that is not there is one more that the schema is past. -/
theorem IsPast.snoc {keywords : List String} (h : IsPast node.value keywords) {keyword : String}
    (hk : node.value.get? keyword = none) : IsPast node.value (keywords ++ [keyword]) :=
  ⟨h.written, List.forall_mem_append.2 ⟨h.absent, List.forall_mem_singleton.2 hk⟩⟩

theorem IsPast.snoc_field {keywords : List String} (h : IsPast node.value keywords)
    {keyword : String} (hk : node.field? keyword = none) :
    IsPast node.value (keywords ++ [keyword]) :=
  h.snoc (Option.map_eq_none_iff.1 hk)

/-! ## Monotonicity -/

section Monotonicity

variable {typed typed' : Node → TypeExpr → Prop}

/-- The relation grows with the one for the schemas inside. So do all those that follow. -/
theorem Followed.mono (hm : ∀ node type, typed node type → typed' node type)
    {reference : String} (h : Followed context typed reference type) :
    Followed context typed' reference type := by
  cases h with
  | document h => exact .document h
  | node h ht => exact .node h (hm _ _ ht)

theorem PropertiesTyped.mono (hm : ∀ node type, typed node type → typed' node type)
    {members : List Member} (h : PropertiesTyped typed node members) :
    PropertiesTyped typed' node members := by
  cases h with
  | absent h => exact .absent h
  | present h hv hs =>
    refine .present h hv (hs.imp ?_)
    rintro field member ⟨type, ht, rfl⟩
    exact ⟨type, hm _ _ ht, rfl⟩

theorem OthersTyped.mono (hm : ∀ node type, typed node type → typed' node type)
    {members : List Member} (h : OthersTyped context typed node members) :
    OthersTyped context typed' node members := by
  cases h with
  | absent h => exact .absent h
  | none h hv => exact .none h hv
  | anything h hv => exact .anything h hv
  | some h hv ht => exact .some h hv (hm _ _ ht)

theorem ObjectTyped.mono (hm : ∀ node type, typed node type → typed' node type)
    (h : ObjectTyped context typed node type) : ObjectTyped context typed' node type := by
  obtain ⟨hmembers, hothers⟩ := h
  exact .object (hmembers.mono hm) (hothers.mono hm)

theorem RestTyped.mono (hm : ∀ node type, typed node type → typed' node type)
    {bounds : ArrayType.Bounds} {rest : Option TypeExpr}
    (h : RestTyped context typed node bounds rest) :
    RestTyped context typed' node bounds rest := by
  cases h with
  | absent h => exact .absent h
  | anything h hv => exact .anything h hv
  | some h hv ht => exact .some h hv (hm _ _ ht)
  | none h ht ho => exact .none h ht ho

theorem ArrayTyped.mono (hm : ∀ node type, typed node type → typed' node type)
    (h : ArrayTyped context typed node type) : ArrayTyped context typed' node type := by
  cases h with
  | absent h => exact .absent h
  | each h hv ht => exact .each h hv (hm _ _ ht)
  | list h hv ht hr => exact .list h hv (ht.imp hm) (hr.mono hm)

theorem NameTyped.mono (hm : ∀ node type, typed node type → typed' node type) {name : String}
    (h : NameTyped context typed node name type) : NameTyped context typed' node name type := by
  cases h with
  | string => exact .string
  | number => exact .number
  | integer => exact .integer
  | boolean => exact .boolean
  | null => exact .null
  | any => exact .any
  | object h => exact .object (h.mono hm)
  | array h => exact .array (h.mono hm)

theorem KindTyped.mono (hm : ∀ node type, typed node type → typed' node type)
    (h : KindTyped context typed node type) : KindTyped context typed' node type := by
  cases h with
  | name h ht => exact .name h (ht.mono hm)
  | names h ht =>
    refine .names h (ht.imp ?_)
    rintro value type ⟨name, rfl, hn⟩
    exact ⟨name, rfl, hn.mono hm⟩
  | object h hk ht => exact .object h hk (ht.mono hm)
  | array h hn hk ht => exact .array h hn hk (ht.mono hm)
  | anything h hn hk => exact .anything h hn hk

theorem BranchesTyped.mono (hm : ∀ node type, typed node type → typed' node type)
    {keyword : String} {types : List TypeExpr} (h : BranchesTyped typed node keyword types) :
    BranchesTyped typed' node keyword types := by
  obtain ⟨h, hv, ht⟩ := h
  exact .branches h hv (ht.imp hm)

/-- A schema has its type still if more is known about the schemas inside. -/
theorem SchemaTyped.mono (hm : ∀ node type, typed node type → typed' node type)
    (h : SchemaTyped context typed node type) : SchemaTyped context typed' node type := by
  cases h with
  | anything h => exact .anything h
  | nothing h => exact .nothing h
  | reference h ht => exact .reference h (ht.mono hm)
  | written hr h => exact .written hr h
  | enum hp h ht => exact .enum hp h ht
  | const hp h ht => exact .const hp h ht
  | anyOf hp ht => exact .anyOf hp (ht.mono hm)
  | oneOf hp ht => exact .oneOf hp (ht.mono hm)
  | allOf hp ht => exact .allOf hp (ht.mono hm)
  | kind hv hp ht => exact .kind hv hp (ht.mono hm)

end Monotonicity

/-! ## One type for each schema -/

section Uniqueness

variable {typed : Node → TypeExpr → Prop} (hu : Relator.RightUnique typed)

/-- A value has one literal type. -/
theorem LiteralTyped.unique : Relator.RightUnique LiteralTyped := by
  rintro value type type' ⟨⟩ ⟨⟩ <;> rfl

include hu

/-- A reference leads to one type, if each schema has one. The same is said for each way to put
types together. -/
theorem Followed.unique {reference : String} {type' : TypeExpr}
    (h : Followed context typed reference type) (h' : Followed context typed reference type') :
    type = type' := by
  cases h with
  | document h =>
    cases h' with
    | document => rfl
    | node h' => cases h.symm.trans h'
  | node h ht =>
    cases h' with
    | document h' => cases h.symm.trans h'
    | node h' ht' =>
      cases h.symm.trans h'
      exact hu ht ht'

theorem PropertyTyped.unique : Relator.RightUnique (PropertyTyped typed node) := by
  rintro field member member' ⟨type, ht, rfl⟩ ⟨type', ht', rfl⟩
  rw [hu ht ht']

/-- There is one list of members for the properties, -/
theorem PropertiesTyped.unique {members members' : List Member}
    (h : PropertiesTyped typed node members) (h' : PropertiesTyped typed node members') :
    members = members' := by
  cases h with
  | absent h =>
    cases h' with
    | absent => rfl
    | present h' => cases h.symm.trans h'
  | present h hv hm =>
    cases h' with
    | absent h' => cases h.symm.trans h'
    | present h' hv' hm' =>
      cases h.symm.trans h'
      exact List.right_unique_forall₂' (PropertyTyped.unique hu) hm hm'

/-- and one for all other keys. -/
theorem OthersTyped.unique {members members' : List Member}
    (h : OthersTyped context typed node members) (h' : OthersTyped context typed node members') :
    members = members' := by
  have hsame : ∀ node type type', typed node type → typed node type' → type = type' :=
    fun _ _ _ ht ht' => hu ht ht'
  cases h <;> cases h' <;> grind

theorem ObjectTyped.unique {type' : TypeExpr} (h : ObjectTyped context typed node type)
    (h' : ObjectTyped context typed node type') : type = type' := by
  obtain ⟨hm, ho⟩ := h
  obtain ⟨hm', ho'⟩ := h'
  rw [hm.unique hu hm', ho.unique hu ho']

theorem RestTyped.unique {bounds : ArrayType.Bounds} {rest rest' : Option TypeExpr}
    (h : RestTyped context typed node bounds rest)
    (h' : RestTyped context typed node bounds rest') : rest = rest' := by
  have hsame : ∀ node type type', typed node type → typed node type' → type = type' :=
    fun _ _ _ ht ht' => hu ht ht'
  cases h <;> cases h' <;> grind

/-- An array has one type: the types of its items determine the tuples, and the two forms exclude
each other. -/
theorem ArrayTyped.unique {type' : TypeExpr} (h : ArrayTyped context typed node type)
    (h' : ArrayTyped context typed node type') : type = type' := by
  cases h with
  | absent h =>
    cases h' with
    | absent => rfl
    | each h' => cases h.symm.trans h'
    | list h' => cases h.symm.trans h'
  | each h hv ht =>
    cases h' with
    | absent h' => cases h.symm.trans h'
    | each h' hv' ht' =>
      cases h.symm.trans h'
      rw [hu ht ht']
    | list h' hv' =>
      cases h.symm.trans h'
      exact absurd hv' (hv _)
  | list h hv ht hr =>
    cases h' with
    | absent h' => cases h.symm.trans h'
    | each h' hv' =>
      cases h.symm.trans h'
      exact absurd hv (hv' _)
    | list h' hv' ht' hr' =>
      cases h.symm.trans h'
      cases List.right_unique_forall₂' hu ht ht'
      rw [hr.unique hu hr']

theorem NameTyped.unique {name : String} {type' : TypeExpr}
    (h : NameTyped context typed node name type) (h' : NameTyped context typed node name type') :
    type = type' := by
  have hobject : ∀ type type', ObjectTyped context typed node type →
      ObjectTyped context typed node type' → type = type' := fun _ _ h h' => h.unique hu h'
  have harray : ∀ type type', ArrayTyped context typed node type →
      ArrayTyped context typed node type' → type = type' := fun _ _ h h' => h.unique hu h'
  generalize hname : name = name' at h'
  cases h <;> cases h' <;> grind

/-- A schema has one type by its kind. What tells the cases apart are the premises about the
keywords that are not there. -/
theorem KindTyped.unique {type' : TypeExpr} (h : KindTyped context typed node type)
    (h' : KindTyped context typed node type') : type = type' := by
  have hname : Relator.RightUnique fun value type => ∃ name, value = Json.string name ∧
      NameTyped context typed node name type := by
    rintro _ type type' ⟨name, rfl, h⟩ ⟨_, ⟨⟩, h'⟩
    exact h.unique hu h'
  have hobject : ∀ type type', ObjectTyped context typed node type →
      ObjectTyped context typed node type' → type = type' := fun _ _ h h' => h.unique hu h'
  have harray : ∀ type type', ArrayTyped context typed node type →
      ArrayTyped context typed node type' → type = type' := fun _ _ h h' => h.unique hu h'
  cases h with
  | name h ht =>
    cases h' with
    | name h' ht' =>
      cases h.symm.trans h'
      exact ht.unique hu ht'
    | _ h' => cases h.symm.trans h'
  | names h ht =>
    cases h' with
    | names h' ht' =>
      cases h.symm.trans h'
      rw [List.right_unique_forall₂' hname ht ht']
    | _ h' => cases h.symm.trans h'
  | object h hk ht => cases h' <;> grind
  | array h hn hk ht => cases h' <;> grind
  | anything h hn hk => cases h' <;> grind

theorem BranchesTyped.unique {keyword : String} {types types' : List TypeExpr}
    (h : BranchesTyped typed node keyword types) (h' : BranchesTyped typed node keyword types') :
    types = types' := by
  obtain ⟨h, -, ht⟩ := h
  obtain ⟨h', -, ht'⟩ := h'
  cases h.symm.trans h'
  exact List.right_unique_forall₂' hu ht ht'

omit hu in
/-- The keyword of branches is there. -/
theorem BranchesTyped.get? {keyword : String} {types : List TypeExpr}
    (h : BranchesTyped typed node keyword types) : node.value.get? keyword ≠ none := by
  obtain ⟨h, -, -⟩ := h
  intro hnone
  rw [Node.field?, hnone] at h
  cases h

/-- The keywords and what they hold decide on the type of a schema. Two ways of typing it are the
same, since each of them asks that the keywords in front are not there. -/
theorem SchemaTyped.unique {type' : TypeExpr} (h : SchemaTyped context typed node type)
    (h' : SchemaTyped context typed node type') : type = type' := by
  have hliteral : ∀ value type type', LiteralTyped value type → LiteralTyped value type' →
      type = type' := fun _ _ _ h h' => LiteralTyped.unique h h'
  have hliterals : ∀ values types types', List.Forall₂ LiteralTyped values types →
      List.Forall₂ LiteralTyped values types' → types = types' :=
    fun _ _ _ h h' => List.right_unique_forall₂' LiteralTyped.unique h h'
  have hfollowed : ∀ reference type type', Followed context typed reference type →
      Followed context typed reference type' → type = type' :=
    fun _ _ _ h h' => h.unique hu h'
  have hbranches : ∀ keyword types types', BranchesTyped typed node keyword types →
      BranchesTyped typed node keyword types' → types = types' := fun _ _ _ h h' => h.unique hu h'
  have hkind : ∀ type type', KindTyped context typed node type →
      KindTyped context typed node type' → type = type' := fun _ _ h h' => h.unique hu h'
  have hspoken : ∀ keyword types, BranchesTyped typed node keyword types →
      node.value.get? keyword ≠ none := fun _ _ h => BranchesTyped.get? h
  have hbool : ∀ value keyword, node.value = .bool value → node.value.get? keyword = none := by
    intro value keyword hv
    rw [hv]
    rfl
  have hpeeled : ∀ keyword keywords, IsPast node.value (keyword :: keywords) →
      node.value.get? keyword = none ∧ IsPast node.value keywords := fun _ _ h =>
    ⟨h.absent _ (List.mem_cons_self ..), h.written,
      fun _ hk => h.absent _ (List.mem_cons_of_mem _ hk)⟩
  have hwritten : ∀ keywords, IsPast node.value keywords →
      (node.value.get? "tsType").bind Json.string? = none := fun _ h => h.written
  cases h <;> cases h' <;> grind

end Uniqueness

/-! ## Schemas at their places -/

/-- The names that titled schemas have, by their places. -/
abbrev Names := List Step → Option String

/-- The type that a schema in the document has, to a depth. -/
def Typed (context : Context) (names : Names) : Nat → Node → TypeExpr → Prop
  | 0, _, _ => False
  | depth + 1, node, type =>
    match node.title? with
    | some _ => ∃ name, names node.path = some name ∧ type = .named name
    | none => SchemaTyped context (Typed context names depth) node type

/-- A schema with a title is called by the name that it was given, -/
theorem typed_titled {names : Names} {depth : Nat} {title : String}
    (ht : node.title? = some title) :
    Typed context names (depth + 1) node type ↔
      ∃ name, names node.path = some name ∧ type = .named name := by
  simp only [Typed, ht]

/-- and one without a title has the type that its keywords say. -/
theorem typed_untitled {names : Names} {depth : Nat} (ht : node.title? = none) :
    Typed context names (depth + 1) node type ↔
      SchemaTyped context (Typed context names depth) node type := by
  simp only [Typed, ht]

/-- All names that the first one gives the second one gives as well. -/
def NamesExtend (names names' : Names) : Prop :=
  ∀ path name, names path = some name → names' path = some name

/-- More names do not change the type of a schema. -/
theorem Typed.mono {names names' : Names} (hn : NamesExtend names names') {depth : Nat}
    (h : Typed context names depth node type) : Typed context names' depth node type := by
  induction depth generalizing node type with
  | zero => exact h
  | succ depth ih =>
    cases ht : node.title? with
    | some title =>
      obtain ⟨name, hname, rfl⟩ := (typed_titled ht).1 h
      exact (typed_titled ht).2 ⟨name, hn _ _ hname, rfl⟩
    | none => exact (typed_untitled ht).2 (((typed_untitled ht).1 h).mono fun _ _ h => ih h)

/-- A greater depth gives the same types. -/
theorem Typed.deeper {names : Names} {depth depth' : Nat} (hle : depth ≤ depth')
    (h : Typed context names depth node type) : Typed context names depth' node type := by
  induction depth generalizing depth' node type with
  | zero => exact h.elim
  | succ depth ih =>
    cases depth' with
    | zero => exact absurd hle (Nat.not_succ_le_zero _)
    | succ depth' =>
      cases ht : node.title? with
      | some title => exact (typed_titled ht).2 ((typed_titled ht).1 h)
      | none =>
        exact (typed_untitled ht).2 (((typed_untitled ht).1 h).mono fun _ _ h =>
          ih (Nat.le_of_succ_le_succ hle) h)

/-- Wherever a schema occurs, it has the same type. -/
theorem Typed.unique {names : Names} {depth depth' : Nat} {type' : TypeExpr}
    (h : Typed context names depth node type) (h' : Typed context names depth' node type') :
    type = type' := by
  have hunique : Relator.RightUnique (Typed context names (max depth depth')) := by
    induction max depth depth' with
    | zero => exact fun _ _ _ h => h.elim
    | succ depth ih =>
      intro node type type' h h'
      cases ht : node.title? with
      | some title =>
        obtain ⟨name, hname, rfl⟩ := (typed_titled ht).1 h
        obtain ⟨name', hname', rfl⟩ := (typed_titled ht).1 h'
        cases hname.symm.trans hname'
        rfl
      | none => exact ((typed_untitled ht).1 h).unique ih ((typed_untitled ht).1 h')
  exact hunique (h.deeper (le_max_left ..)) (h'.deeper (le_max_right ..))

end LintTypes.Schema
