import LintTypes.Proofs.HoistingRuns
import LintTypes.Proofs.Validity

/-!
# Types accept all valid values

The type of a schema has every value that is valid against the schema, the names in it being those
that the document's declarations declare. One schema is a matter of cases, keyword by keyword; a
whole document follows by induction on the derivation of validity, since the type of a titled schema
is a name and what is declared under it is the type that its keywords make.
-/

namespace LintTypes.Schema

variable {declarations : Declarations} {context : Context} {typed : Node → TypeExpr → Prop}
  {valid : Json → Json → Prop} {node : Node} {type : TypeExpr} {value : Json}

/-! ## Keywords about the whole value -/

theorem belongs_unknown (value : Json) : Belongs declarations value context.unknown := by
  unfold Context.unknown
  split
  · exact .unknown value
  · exact .any value

/-- What is the same as a listed value belongs to the literal type of that value. -/
theorem belongs_literal {listed : Json} (ht : LiteralTyped listed type)
    (hs : listed.Same value) : Belongs declarations value type := by
  cases ht with
  | string text =>
    cases hs
    exact .literalString text
  | number number =>
    cases hs with
    | number h => exact belongs_numberLiteral.2 h.symm
  | bool value =>
    cases hs
    exact .literalBool value
  | null =>
    cases hs
    exact .null

/-- The schemas inside are accepted by their types. -/
def Accepts (declarations : Declarations) (document : Json) (typed : Node → TypeExpr → Prop)
    (valid : Json → Json → Prop) : Prop :=
  ∀ node type value, node.InDocument document → typed node type → valid node.value value →
    Belongs declarations value type

/-- Only `true` and objects are schemas that have valid values. -/
def OfSchemas (valid : Json → Json → Prop) : Prop :=
  ∀ schema value, valid schema value → schema = .bool true ∨ ∃ fields, schema = .object fields

theorem OfSchemas.not_false (h : OfSchemas valid) (value : Json) : ¬valid (.bool false) value := by
  intro hvalid
  rcases h _ _ hvalid with heq | ⟨_, heq⟩ <;> cases heq

section Keywords

variable (ha : Accepts declarations context.document typed valid)
  (hn : node.InDocument context.document)
include ha hn

/-- What is valid against one branch or all of them has one of their types or all of these. -/
theorem belongs_branches {keyword : String} {types : List TypeExpr}
    (ht : BranchesTyped typed node keyword types) :
    ∃ branches, node.value.get? keyword = some (.array branches) ∧
      ((∃ branch ∈ branches, valid branch value) →
        ∃ type ∈ types, Belongs declarations value type) ∧
      ((∀ branch ∈ branches, valid branch value) →
        ∀ type ∈ types, Belongs declarations value type) := by
  obtain ⟨hfield, hv, htypes⟩ := ht
  rename_i branches values
  obtain ⟨hin, hget⟩ := hn.field? hfield
  have hvalues : branches.items.map Node.value = values := by
    rw [Node.values_items, hv]
    rfl
  refine ⟨values, by rw [hget, hv], ?_, ?_⟩
  · rintro ⟨branch, hmem, hvalid⟩
    rw [← hvalues] at hmem
    obtain ⟨child, hchild, rfl⟩ := List.mem_map.1 hmem
    obtain ⟨type, htype, h⟩ := (forall₂_exists htypes).1 child hchild
    exact ⟨type, htype, ha child type value (hin.items hchild) h hvalid⟩
  · intro hall type htype
    obtain ⟨child, hchild, h⟩ := (forall₂_exists htypes).2 type htype
    have hmem : child.value ∈ values := hvalues ▸ List.mem_map_of_mem hchild
    exact ha child type value (hin.items hchild) h (hall _ hmem)

end Keywords

/-! ## Objects -/

/-- Only texts in an array under `required` are required keys. -/
theorem mem_requiredKeys {schema : Json} {key : String} (h : key ∈ requiredKeys schema) :
    ∃ keys, schema.get? "required" = some (.array keys) ∧ .string key ∈ keys := by
  unfold requiredKeys at h
  obtain ⟨listed, hmem, hkey⟩ := List.mem_filterMap.1 h
  cases hr : schema.get? "required" with
  | none =>
    rw [hr] at hmem
    cases hmem
  | some required =>
    rw [hr] at hmem
    cases required with
    | array keys =>
      cases listed <;> cases hkey
      exact ⟨keys, rfl, hmem⟩
    | _ => cases hmem

/-- The members for properties are those of the properties that the schema has. -/
theorem propertiesTyped_spec {members : List Member} (hd : context.document.Distinct)
    (hn : node.InDocument context.document) (h : PropertiesTyped typed node members) :
    (∀ member ∈ members, ∃ properties key child type,
      node.value.get? "properties" = some (.object properties) ∧ (key, child.value) ∈ properties ∧
      child.InDocument context.document ∧ typed child type ∧
      member = .property key type (!(requiredKeys node.value).contains key)
        (comment? child.value)) ∧
      ∀ properties key property, node.value.get? "properties" = some (.object properties) →
        (key, property) ∈ properties → ∃ member ∈ members, member.key = .named key := by
  cases h with
  | absent h =>
    have hnone : node.value.get? "properties" = none := Option.map_eq_none_iff.1 h
    simp [hnone]
  | present hfield hv hm =>
    rename_i parent fields
    obtain ⟨hin, hget⟩ := hn.field? hfield
    rw [hv] at hget
    refine ⟨?_, ?_⟩
    · intro member hmember
      obtain ⟨⟨key, child⟩, hmem, type, htype, rfl⟩ := (forall₂_exists hm).2 member hmember
      obtain ⟨hchild, hvalue⟩ := hin.fields hd hmem
      rw [hv] at hvalue
      exact ⟨fields, key, child, type, hget, Json.mem_of_lookup hvalue, hchild, htype, rfl⟩
    · intro properties key property hproperties hmem
      rw [hget] at hproperties
      cases hproperties
      have hfields : (key, parent.below (.field key) property) ∈ parent.fields := by
        refine List.mem_map.2 ⟨(key, property), ?_, rfl⟩
        rw [hv]
        exact hmem
      obtain ⟨member, hmember, type, -, rfl⟩ := (forall₂_exists hm).1 _ hfields
      exact ⟨_, hmember, rfl⟩

/-- The member for other keys: none where the schema admits no other keys. -/
theorem othersTyped_spec {others : List Member}
    (ha : Accepts declarations context.document typed valid)
    (hn : node.InDocument context.document)
    (hstyle : context.style.additionalProperties = true)
    (h : OthersTyped context typed node others) :
    (others = [] ∧ node.value.get? "additionalProperties" = some (.bool false)) ∨
      ∃ type, others = [.anyKey type] ∧
        ∀ value, (∀ additional, node.value.get? "additionalProperties" = some additional →
          valid additional value) → Belongs declarations value type := by
  cases h with
  | absent h =>
    rw [if_pos hstyle]
    exact .inr ⟨_, rfl, fun value _ => belongs_unknown value⟩
  | none h hv => exact .inl ⟨rfl, by rw [(hn.field? h).2, hv]⟩
  | anything h hv => exact .inr ⟨_, rfl, fun value _ => belongs_unknown value⟩
  | some h hv ht =>
    obtain ⟨hin, hget⟩ := hn.field? h
    exact .inr ⟨_, rfl, fun value hvalid => ha _ _ value hin ht (hvalid _ hget)⟩

/-- An object that satisfies the keywords of objects belongs to their type, given that the types of
the schemas inside accept what is valid for them. -/
theorem belongs_object {fields : List (String × Json)}
    (ha : Accepts declarations context.document typed valid)
    (hn : node.InDocument context.document) (hd : context.document.Distinct)
    (hstyle : context.style.additionalProperties = true)
    (hschema : OfSchemas valid) (ht : ObjectTyped context typed node type)
    (hs : SatisfiesObject valid node.value fields) :
    Belongs declarations (.object fields) type := by
  obtain ⟨hm, ho⟩ := ht
  rename_i members others
  obtain ⟨hmembers, hproperties⟩ := propertiesTyped_spec hd hn hm
  have hothers := othersTyped_spec ha hn hstyle ho
  have hnotIndex : ∀ member ∈ members, ∀ param key, member.key ≠ .index param key := by
    intro member hmember param key
    obtain ⟨_, _, _, _, -, -, -, -, rfl⟩ := hmembers member hmember
    rintro ⟨⟩
  have hnotNamed : ∀ member ∈ others, ∀ key, member.key ≠ .named key := by
    intro member hmember key
    rcases hothers with ⟨rfl, -⟩ | ⟨_, rfl, -⟩
    · cases hmember
    · cases List.mem_singleton.1 hmember
      rintro ⟨⟩
  refine .object ?named ?required ?others ?closed
  case named =>
    intro member hmember key item hkey hitem
    rcases List.mem_append.1 hmember with hmember | hmember
    · obtain ⟨properties, _, child, type, hget, hmem, hin, htype, rfl⟩ := hmembers member hmember
      cases hkey
      exact ha child type item hin htype (hs.properties hget hmem hitem)
    · exact absurd hkey (hnotNamed member hmember key)
  case required =>
    intro member hmember key hkey hrequired
    rcases List.mem_append.1 hmember with hmember | hmember
    · obtain ⟨_, _, _, _, -, -, -, -, rfl⟩ := hmembers member hmember
      cases hkey
      have hcontains : (requiredKeys node.value).contains key = true := by
        simpa [Member.property] using hrequired
      obtain ⟨keys, hkeys, hin⟩ := mem_requiredKeys (by simpa using hcontains)
      exact hs.required hkeys hin
    · exact absurd hkey (hnotNamed member hmember key)
  case others =>
    intro member hmember param keyType hkey key item hitem hunnamed
    rcases List.mem_append.1 hmember with hmember | hmember
    · exact absurd hkey (hnotIndex member hmember param keyType)
    · rcases hothers with ⟨rfl, -⟩ | ⟨type, rfl, htype⟩
      · cases hmember
      · cases List.mem_singleton.1 hmember
        refine htype item fun additional hadditional =>
          hs.additionalProperties hadditional hitem fun properties property hget hmem => ?_
        obtain ⟨other, hother, hnamed⟩ := hproperties properties key property hget hmem
        exact hunnamed other (List.mem_append_left _ hother) hnamed
  case closed =>
    -- There is no index signature only if `additionalProperties` is `false`.
    intro hnone key item hitem
    by_contra hunnamed
    rcases hothers with ⟨rfl, hget⟩ | ⟨type, rfl, -⟩
    · refine hschema.not_false item ?_
      refine hs.additionalProperties hget hitem fun properties property hp hmem => ?_
      obtain ⟨other, hother, hnamed⟩ := hproperties properties key property hp hmem
      exact hunnamed ⟨other, List.mem_append_left _ hother, hnamed⟩
    · exact hnone (.anyKey type) (by simp) "k" .string rfl

/-! ## Arrays -/

/-- A keyword that counts has a number of that value. -/
theorem value_of_nat? {schema : Json} {keyword : String} {n : Nat}
    (h : (schema.get? keyword).bind Json.nat? = some n) :
    ∃ number : JsonNumber, schema.get? keyword = some (.number number) ∧ number.value = n := by
  obtain ⟨bound, hget, hn⟩ := Option.bind_eq_some_iff.1 h
  unfold Json.nat? at hn
  split at hn
  · cases hn
    exact ⟨_, hget, by simp [JsonNumber.value]⟩
  · cases hn

/-- A valid array keeps the bounds. -/
theorem bounds_spec (style : Style) {items : List Json} {schema : Json}
    (hs : SatisfiesArray valid schema items) :
    (boundsOf style schema).least ≤ items.length ∧
      ∀ greatest, (boundsOf style schema).greatest = some greatest → items.length ≤ greatest := by
  unfold boundsOf
  split
  · simp
  · dsimp only
    refine ⟨?_, fun greatest hg => ?_⟩
    · cases hm : (schema.get? "minItems").bind Json.nat? with
      | none => simp
      | some least =>
        obtain ⟨number, hget, hvalue⟩ := value_of_nat? hm
        have hle := hs.minItems hget
        rw [hvalue] at hle
        exact_mod_cast hle
    · obtain ⟨number, hget, hvalue⟩ := value_of_nat? hg
      have hle := hs.maxItems hget
      rw [hvalue] at hle
      exact_mod_cast hle

/-- The items behind those with a schema of their own have the rest type; without one there are
none. -/
theorem restTyped_spec {bounds : ArrayType.Bounds} {rest : Option TypeExpr} {schemas : List Json}
    {items : List Json} (ha : Accepts declarations context.document typed valid)
    (hschema : OfSchemas valid) (hn : node.InDocument context.document)
    (hitems : node.value.get? "items" = some (.array schemas))
    (hs : SatisfiesArray valid node.value items)
    (h : RestTyped context typed node bounds rest) :
    (∀ type, rest = some type → ∀ (index : Nat) item, items[index]? = some item →
      schemas.length ≤ index → Belongs declarations item type) ∧
      (rest = none → bounds.greatest = none → items.length ≤ schemas.length) := by
  have hunbounded : ∀ rest, rest = (if bounds.greatest.isNone then some context.unknown else none) →
      (∀ type, rest = some type → ∀ (index : Nat) item, items[index]? = some item →
        schemas.length ≤ index → Belongs declarations item type) ∧
        (rest = none → bounds.greatest = none → items.length ≤ schemas.length) := by
    rintro rest rfl
    refine ⟨fun type hsome index item _ _ => ?_, fun hnone hg => ?_⟩
    · split at hsome
      · cases hsome
        exact belongs_unknown item
      · cases hsome
    · rw [hg] at hnone
      cases hnone
  cases h with
  | absent h => exact hunbounded _ rfl
  | anything h hv => exact hunbounded _ rfl
  | some h hv ht =>
    obtain ⟨hin, hget⟩ := hn.field? h
    refine ⟨?_, nofun⟩
    rintro _ ⟨⟩ index item hitem hle
    exact ha _ _ item hin ht (hs.additionalItems hitems hget hle hitem)
  | none h ht ho =>
    refine ⟨nofun, fun _ _ => ?_⟩
    by_contra hlt
    have hitem : items[schemas.length]? = some items[schemas.length] :=
      List.getElem?_eq_getElem (by omega)
    rcases hschema _ _ (hs.additionalItems hitems (hn.field? h).2 le_rfl hitem) with heq | ⟨_, heq⟩
    · exact ht heq
    · exact ho _ heq

/-- Types beyond the greatest length are dropped, where there are no items. -/
theorem capped_spec (types : List TypeExpr) {bounds : ArrayType.Bounds} {items : List Json}
    (hgreatest : ∀ greatest, bounds.greatest = some greatest → items.length ≤ greatest)
    {capped : List TypeExpr}
    (hcapped : capped = match bounds.greatest with
      | some greatest => types.take greatest
      | none => types) :
    (∀ (index : Nat) type, capped[index]? = some type → types[index]? = some type) ∧
      (∀ index, index < items.length → capped.length ≤ index → types.length ≤ index) ∧
      (bounds.greatest = none → capped.length = types.length) := by
  subst hcapped
  split
  · rename_i greatest hg
    have hle := hgreatest greatest hg
    refine ⟨fun index type ht => (ArrayType.getElem?_of_take ht).2, fun index hi hl => ?_,
      fun hnone => ?_⟩
    · rw [List.length_take] at hl
      omega
    · rw [hg] at hnone
      cases hnone
  · exact ⟨fun _ _ h => h, fun _ _ h => h, fun _ => rfl⟩

theorem forall₂_getElem? {α β : Type} {R : α → β → Prop} {xs : List α} {ys : List β}
    (h : List.Forall₂ R xs ys) {index : Nat} {y : β} (hy : ys[index]? = some y) :
    ∃ x, xs[index]? = some x ∧ R x y := by
  obtain ⟨hl, hget⟩ := List.forall₂_iff_get.1 h
  obtain ⟨hlt, rfl⟩ := List.getElem?_eq_some_iff.1 hy
  exact ⟨_, List.getElem?_eq_getElem (hl ▸ hlt), hget index (hl ▸ hlt) hlt⟩

/-- An array that satisfies the keywords of arrays belongs to their type, under the same premise.
The way in which `items` is written decides which of the array types that is. -/
theorem belongs_array {items : List Json}
    (ha : Accepts declarations context.document typed valid)
    (hschema : OfSchemas valid) (hn : node.InDocument context.document)
    (ht : ArrayTyped context typed node type) (hs : SatisfiesArray valid node.value items) :
    Belongs declarations (.array items) type := by
  obtain ⟨hleast, hgreatest⟩ := bounds_spec context.style hs
  cases ht with
  | absent h =>
    exact ArrayType.belongs_uniform belongs_unknown (fun item _ => belongs_unknown item) hleast
      hgreatest
  | each h hv ht =>
    obtain ⟨hin, hget⟩ := hn.field? h
    exact ArrayType.belongs_uniform belongs_unknown
      (fun item hitem => ha _ _ item hin ht (hs.each hget hv hitem)) hleast hgreatest
  | list h hv ht hr =>
    rename_i parent schemas types rest
    obtain ⟨hin, hget⟩ := hn.field? h
    rw [hv] at hget
    obtain ⟨hrest, hclosed⟩ := restTyped_spec ha hschema hn hget hs hr
    obtain ⟨htypes, hbehind, hlength⟩ := capped_spec types hgreatest rfl
    have hvalues : parent.items.map Node.value = schemas := by
      rw [Node.values_items, hv]
      rfl
    have hcount : types.length = schemas.length := by
      rw [← ht.length_eq, ← hvalues, List.length_map]
    refine ArrayType.belongs_ofItems belongs_unknown ⟨?_, ?_⟩ hleast hgreatest ?_
    · intro index item type hitem htype
      obtain ⟨child, hchild, htyped⟩ := forall₂_getElem? ht (htypes index type htype)
      have hchildValue : schemas[index]? = some child.value := by
        rw [← hvalues, List.getElem?_map, hchild]
        rfl
      exact ha child type item (hin.items (List.mem_of_getElem? hchild)) htyped
        (hs.list hget hchildValue hitem)
    · intro type hsome index item hitem hle
      have hlt := (List.getElem?_eq_some_iff.1 hitem).1
      exact hrest type hsome index item hitem (hcount ▸ hbehind index hlt hle)
    · intro hnone hg
      exact (hclosed hnone hg).trans (hcount.symm.trans (hlength hg).symm).le

/-! ## Schemas -/

theorem hasKeyword_iff {schema : Json} {keywords : List String} :
    HasKeyword schema keywords ↔
      (keywords.any fun keyword => (schema.get? keyword).isSome) = true := by
  simp [HasKeyword, List.any_eq_true]

/-- The kind of JSON value that a type name asks for. -/
structure Kind (name : String) (value : Json) : Prop where
  /-- The value `null`. -/
  null : name = "null" → value = .null
  /-- A truth value. -/
  boolean : name = "boolean" → ∃ truth, value = .bool truth
  /-- A string. -/
  string : name = "string" → ∃ text, value = .string text
  /-- A number. -/
  number : name = "number" ∨ name = "integer" → ∃ number, value = .number number
  /-- An array. -/
  array : name = "array" → ∃ items, value = .array items
  /-- An object. -/
  object : name = "object" → ∃ fields, value = .object fields

/-- A value with the type of a name is of the kind that the name says. -/
theorem HasType.kind {name : String} (h : HasType name value) : Kind name value := by
  constructor <;> cases h <;> simp

theorem object_of_get? {schema : Json} {key : String} {inner : Json}
    (h : schema.get? key = some inner) : ∃ fields, schema = .object fields := by
  cases schema with
  | object fields => exact ⟨fields, rfl⟩
  | _ => cases h

/-- An object without reference is satisfied through its keywords. -/
theorem Satisfies.keywords_of_object {document schema : Json}
    (hs : Satisfies valid document schema value) (ho : ∃ fields, schema = .object fields)
    (hr : schema.get? "$ref" = none) : SatisfiesKeywords valid schema value := by
  obtain ⟨fields, rfl⟩ := ho
  cases hs with
  | reference h =>
    rw [hr] at h
    cases h
  | keywords _ hk => exact hk

/-- A reference is satisfied through what it leads to. -/
theorem Satisfies.referred {document schema : Json} {reference : String}
    (hs : Satisfies valid document schema value)
    (h : schema.get? "$ref" = some (.string reference)) :
    ∃ referred, Refers document reference referred ∧ valid referred value := by
  cases hs with
  | anything => cases h
  | reference h' hr hv =>
    rw [h'] at h
    cases h
    exact ⟨_, hr, hv⟩
  | keywords hnone =>
    rw [hnone] at h
    cases h

section Schemas

variable (ha : Accepts declarations context.document typed valid) (hschema : OfSchemas valid)
  (hd : context.document.Distinct) (hstyle : context.style.additionalProperties = true)
  (hn : node.InDocument context.document)
include ha hschema hd hstyle hn

/-- A value with the type of a name that satisfies the keywords belongs to the type made for the
name; for `object` and `array` the keywords inside count too. -/
theorem belongs_name {name : String} (ht : NameTyped context typed node name type)
    (htype : HasType name value) (hs : SatisfiesKeywords valid node.value value) :
    Belongs declarations value type := by
  have hkind := htype.kind
  cases ht with
  | string =>
    obtain ⟨text, rfl⟩ := hkind.string rfl
    exact .string text
  | number =>
    obtain ⟨number, rfl⟩ := hkind.number (.inl rfl)
    exact .number number
  | integer =>
    obtain ⟨number, rfl⟩ := hkind.number (.inr rfl)
    exact .number number
  | boolean =>
    obtain ⟨value, rfl⟩ := hkind.boolean rfl
    exact .boolean value
  | null =>
    rw [hkind.null rfl]
    exact .null
  | any => exact belongs_unknown value
  | object h =>
    obtain ⟨fields, rfl⟩ := hkind.object rfl
    exact belongs_object ha hn hd hstyle hschema h (hs.object rfl)
  | array h =>
    obtain ⟨items, rfl⟩ := hkind.array rfl
    exact belongs_array ha hschema hn h (hs.array rfl)

/-- A value that satisfies the keywords belongs to the type that is made of a schema by its kind. -/
theorem belongs_kind (ht : KindTyped context typed node type)
    (hs : SatisfiesKeywords valid node.value value) : Belongs declarations value type := by
  cases ht with
  | name h ht => exact belongs_name ha hschema hd hstyle hn ht (hs.general.type h) hs
  | names h ht =>
    obtain ⟨name, hname, htype⟩ := hs.general.types h
    obtain ⟨type, hmem, _, ⟨⟩, hnamed⟩ := (forall₂_exists ht).1 _ hname
    exact belongs_unionOf.2 ⟨type, hmem, belongs_name ha hschema hd hstyle hn hnamed htype hs⟩
  | object h hk ht =>
    exact belongs_name ha hschema hd hstyle hn (.object ht)
      (hs.general.objectKind h (hasKeyword_iff.2 hk)) hs
  | array h hnk hk ht =>
    have hno : ¬HasKeyword node.value keywordsOfObjects := by
      rw [hasKeyword_iff, hnk]
      exact Bool.false_ne_true
    exact belongs_name ha hschema hd hstyle hn (.array ht)
      (hs.general.arrayKind h hno (hasKeyword_iff.2 hk)) hs
  | anything => exact belongs_unknown value

/-- What satisfies a schema belongs to its type, if this is so of the schemas inside it and those
that it refers to. -/
theorem belongs_of_satisfies (ht : SchemaTyped context typed node type)
    (hroot : ∀ value, valid context.document value →
      Belongs declarations value (.named context.name))
    (hs : Satisfies valid context.document node.value value) :
    Belongs declarations value type := by
  cases ht with
  | anything => exact belongs_unknown value
  | nothing h =>
    rw [h] at hs
    cases hs
  | reference h hfollowed =>
    obtain ⟨_, ⟨pointer, node, hpointer, hresolve, rfl⟩, hvalid⟩ := hs.referred h
    cases hfollowed with
    | document htarget =>
      rw [target_document htarget] at hpointer
      cases hpointer
      cases hresolve
      exact hroot value hvalid
    | node htarget ht =>
      obtain ⟨pointer', hpointer', hresolve'⟩ := target_node htarget
      rw [hpointer] at hpointer'
      cases hpointer'
      rw [hresolve] at hresolve'
      cases hresolve'
      exact ha node type value (Pointer.resolve?_inDocument hresolve) ht hvalid
  | written hr h =>
    obtain ⟨text, htext, -⟩ := Option.bind_eq_some_iff.1 h
    have hk := hs.keywords_of_object (object_of_get? htext) hr
    rw [hk.tsType] at htext
    cases htext
  | enum hp h ht =>
    have hk := hs.keywords_of_object (object_of_get? h) hp.ref
    obtain ⟨listed, hmem, hsame⟩ := hk.general.enum h
    obtain ⟨type, htype, hliteral⟩ := (forall₂_exists ht).1 listed hmem
    exact belongs_unionOf.2 ⟨type, htype, belongs_literal hliteral hsame⟩
  | const hp h ht =>
    have hk := hs.keywords_of_object (object_of_get? h) hp.ref
    exact belongs_literal ht (hk.general.const h)
  | anyOf hp ht =>
    obtain ⟨branches, h, hsome, -⟩ := belongs_branches ha hn ht
    have hk := hs.keywords_of_object (object_of_get? h) hp.ref
    exact belongs_unionOf.2 (hsome (hk.general.anyOf h))
  | oneOf hp ht =>
    obtain ⟨branches, h, hsome, -⟩ := belongs_branches ha hn ht
    have hk := hs.keywords_of_object (object_of_get? h) hp.ref
    exact belongs_unionOf.2 (hsome (hk.general.oneOf h))
  | allOf hp ht =>
    obtain ⟨branches, h, -, hall⟩ := belongs_branches ha hn ht
    have hk := hs.keywords_of_object (object_of_get? h) hp.ref
    exact belongs_intersectionOf.2 (hall (hk.general.allOf h))
  | kind hv hp ht =>
    have hk := hs.keywords_of_object ⟨_, hv⟩ hp.ref
    exact belongs_kind ha hschema hd hstyle hn ht hk

end Schemas

/-! ## Documents -/

/-- What a schema in a document leads to is in the document. -/
theorem closed_inDocument {context : Context} (hd : context.document.Distinct) :
    Closed context (Node.InDocument context.document) where
  field := fun hn h => (hn.field? h).1
  fields := fun hn h => (hn.fields hd h).1
  items := fun hn h => hn.items h
  target := fun h =>
    let ⟨_, _, hresolve⟩ := target_node h
    Pointer.resolve?_inDocument hresolve

/-- At every depth values are valid only for `true` and for objects. -/
theorem ofSchemas_validWithin (document : Json) (depth : Nat) :
    OfSchemas (ValidWithin document depth) := by
  intro schema value h
  cases depth with
  | zero => cases h
  | succ depth =>
    cases h with
    | anything => exact .inl rfl
    | reference => exact .inr ⟨_, rfl⟩
    | keywords => exact .inr ⟨_, rfl⟩

section Documents

variable {names : Names} {hoisted : Declarations}
  (hd : context.document.Distinct) (hstyle : context.style.additionalProperties = true)
  (hdecl : DeclaresDocument context (Node.InDocument context.document) names type hoisted)
  {comment : Option String}
include hd hstyle hdecl

/-- A value is accepted by the type of a schema in the document if a derivation shows it to be
valid. The induction is on the depth of the derivation, for all types that the schema may have: its
own, when it has no title or is declared, and its name otherwise. -/
theorem belongs_of_validWithin (depth : Nat) {depth' : Nat} {node : Node} {inner : TypeExpr}
    {value : Json} (hn : node.InDocument context.document)
    (ht : SchemaTyped context (Typed context names depth') node inner)
    (hv : ValidWithin context.document depth node.value value) :
    Belongs (.ofType context.name type comment :: hoisted) value inner := by
  -- The induction is on validity and not on the schema: a name leads to a declaration whose schema
  -- may stand above the node.
  induction depth generalizing depth' node inner value with
  | zero => cases hv
  | succ depth ih =>
    have hnodup : ((Declaration.ofType context.name type comment :: hoisted).map
        Declaration.name).Nodup := by
      simpa using hdecl.nodup
    refine belongs_of_satisfies (fun child inner value hchild htyped hvalid => ?_)
      (ofSchemas_validWithin _ depth) hd hstyle hn ht (fun value hvalid => ?_) hv
    · cases depth' with
      | zero => cases htyped
      | succ depth' =>
        cases htitle : child.title? with
        | none => exact ih hchild ((typed_untitled htitle).1 htyped) hvalid
        | some title =>
          obtain ⟨name, hname, rfl⟩ := (typed_titled htitle).1 htyped
          obtain ⟨-, other, hother, hpath, declaration, hmem, hdeclared⟩ :=
            hdecl.declared _ name hname
          cases hother.ext hchild hpath
          obtain ⟨-, htyped'⟩ := hdeclared
          have hfound := Declarations.find?_of_mem hnodup (List.mem_cons_of_mem _ hmem)
          rw [Declaration.name_ofType] at hfound
          refine .reference hfound ?_
          rw [Declaration.type_ofType]
          exact ih hchild htyped' hvalid
    · obtain ⟨depth'', hroot⟩ := hdecl.typed
      have hfound := Declarations.find?_of_mem hnodup (List.mem_cons_self ..)
      rw [Declaration.name_ofType] at hfound
      refine .reference hfound ?_
      rw [Declaration.type_ofType]
      exact ih (Node.root_inDocument _) hroot hvalid

end Documents

/-- The type that is declared for a document has all values that are valid against it. -/
theorem declarations_accept_valid {document : Json} {name : String} {style : Style}
    {value : Json} (hd : document.Distinct) (hstyle : style.additionalProperties = true)
    (h : Schema.declarations document name style = .ok declarations)
    (hv : Valid document document value) :
    ∃ first others, declarations = first :: others ∧ first.name = name ∧
      Belongs declarations value first.type := by
  obtain ⟨names, type, hoisted, hdecl, rfl⟩ :=
    declarations_spec (@closed_inDocument ⟨document, name, style⟩ hd)
      (Node.root_inDocument document) h
  obtain ⟨depth, hvalid⟩ := hv
  obtain ⟨depth', htyped⟩ := hdecl.typed
  refine ⟨_, hoisted, rfl, Declaration.name_ofType .., ?_⟩
  rw [Declaration.type_ofType]
  exact belongs_of_validWithin hd hstyle hdecl depth (Node.root_inDocument document) htyped hvalid

/-- A schema with a type name only asks for values of the type, the keywords of objects and arrays
aside. -/
theorem satisfiesGeneral_of_name {schema : Json} {name : String}
    (hnone : ∀ keyword ∈ ["enum", "const", "anyOf", "oneOf", "allOf"], schema.get? keyword = none)
    (hname : schema.get? "type" = some (.string name)) (h : HasType name value) :
    SatisfiesGeneral valid schema value := by
  simp only [List.forall_mem_cons, List.not_mem_nil, false_implies, implies_true, and_true] at hnone
  obtain ⟨henum, hconst, hanyOf, honeOf, hallOf⟩ := hnone
  constructor <;> simp_all

/-- An object with at most a reference to another such object in it. -/
def linkSchema : Json :=
  .object [("title", .string "link"), ("type", .string "object"),
    ("properties", .object [("next", .object [("$ref", .string "#/items")])]),
    ("additionalProperties", .bool false)]

/-- Arrays of links. -/
def chainSchema : Json := .object [("type", .string "array"), ("items", linkSchema)]

/-- A link is satisfied by an object that holds at most the next link. -/
theorem satisfies_link {fields : List (String × Json)}
    (hk : ∀ key item, (key, item) ∈ fields → key = "next" ∧
      valid (.object [("$ref", .string "#/items")]) item) :
    Satisfies valid chainSchema linkSchema (.object fields) := by
  refine .keywords rfl ⟨rfl, rfl, ?_, ?_, nofun⟩
  · exact satisfiesGeneral_of_name (by decide) rfl (.object fields)
  · rintro _ ⟨⟩
    constructor
    · rintro properties key property item ⟨⟩ hproperty hitem
      cases List.mem_singleton.1 hproperty
      exact (hk _ _ hitem).2
    · rintro _ _ ⟨⟩
    · rintro additional key item ⟨⟩ hitem hunnamed
      obtain ⟨rfl, -⟩ := hk _ _ hitem
      exact absurd (List.mem_singleton.2 rfl) (hunnamed _ _ rfl)

/-- A chain of two links is valid for its schema, which refers to itself. -/
theorem valid_chain :
    Valid chainSchema chainSchema (.array [.object [("next", .object [])]]) := by
  have hinner : ValidWithin chainSchema 1 linkSchema (.object []) := satisfies_link (by simp)
  have hnext : ValidWithin chainSchema 2 (.object [("$ref", .string "#/items")]) (.object []) :=
    .reference rfl ⟨"/items".toList, _, rfl, rfl, rfl⟩ hinner
  have hlink : ValidWithin chainSchema 3 linkSchema (.object [("next", .object [])]) :=
    satisfies_link (by simpa using hnext)
  refine ⟨4, .keywords rfl ⟨rfl, rfl, ?_, nofun, ?_⟩⟩
  · exact satisfiesGeneral_of_name (by decide) rfl (.array _)
  · rintro _ ⟨⟩
    constructor
    · rintro _ item ⟨⟩ - hitem
      cases List.mem_singleton.1 hitem
      exact hlink
    · rintro _ _ _ _ ⟨⟩
    · rintro _ _ _ _ ⟨⟩
    · rintro _ ⟨⟩
    · rintro _ ⟨⟩

/-- The array type that is declared for chains has a chain of two links. -/
theorem declarations_accept_valid_chain :
    ∃ declarations, Schema.declarations chainSchema "Schema0" {} = .ok declarations ∧
      ∃ first others, declarations = first :: others ∧ first.name = "Schema0" ∧
        Belongs declarations (.array [.object [("next", .object [])]]) first.type :=
  ⟨_, rfl, declarations_accept_valid (by simp [chainSchema, linkSchema]) rfl rfl valid_chain⟩

end LintTypes.Schema
