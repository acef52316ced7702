import LintTypes.Json.Pointer
import LintTypes.Proofs.Membership
import LintTypes.Schema.Types

/-!
# Valid values

When a JSON value is valid against a schema, for schemas of the keywords `$ref`, `enum`, `const`,
`anyOf`, `oneOf`, `allOf`, `type`, `properties`, `required`, `additionalProperties`, `items`,
`additionalItems`, `minItems` and `maxItems`. Nothing is valid against a schema with `tsType` or
`patternProperties`, of which nothing is said here. A schema without `type` that has a keyword of
objects, or else one of arrays, asks for that kind.

`Satisfies` says what one schema asks of a value, given which values are valid against the schemas
inside it and those that it refers to. Validity is its least solution: what a derivation of some
depth shows to be valid is so, and nothing else. Of the branches of `oneOf` at least one has to
hold; that no other one does is not asked for.
-/

namespace LintTypes

/-- The values are the same: numbers by value, objects by the values of their keys. -/
inductive Json.Same : Json → Json → Prop where
  | null : Same .null .null
  | bool (value : Bool) : Same (.bool value) (.bool value)
  | number {number number' : JsonNumber} (h : number.value = number'.value) :
      Same (.number number) (.number number')
  | string (text : String) : Same (.string text) (.string text)
  | array {items items' : List Json} (hl : items.length = items'.length)
      (h : ∀ (index : Nat) item item', items[index]? = some item → items'[index]? = some item' →
        Same item item') : Same (.array items) (.array items')
  | object {fields fields' : List (String × Json)}
      (hk : ∀ key, (∃ value, (key, value) ∈ fields) ↔ ∃ value, (key, value) ∈ fields')
      (h : ∀ key value value', (key, value) ∈ fields → (key, value') ∈ fields' →
        Same value value') : Same (.object fields) (.object fields')

namespace Schema

/-- The values of a type name. -/
inductive HasType : String → Json → Prop where
  | null : HasType "null" .null
  | boolean (value : Bool) : HasType "boolean" (.bool value)
  | string (text : String) : HasType "string" (.string text)
  | number (number : JsonNumber) : HasType "number" (.number number)
  | integer {number : JsonNumber} {n : Int} (h : number.value = n) :
      HasType "integer" (.number number)
  | array (items : List Json) : HasType "array" (.array items)
  | object (fields : List (String × Json)) : HasType "object" (.object fields)
  | any (value : Json) : HasType "any" value

/-- The schema has one of the keywords. -/
def HasKeyword (schema : Json) (keywords : List String) : Prop :=
  ∃ keyword ∈ keywords, (schema.get? keyword).isSome

section Keywords

variable (valid : Json → Json → Prop) (schema value : Json)

/-- What the keywords about the whole value ask for. -/
structure SatisfiesGeneral : Prop where
  /-- The value is one of those listed. -/
  enum {values : List Json} : schema.get? "enum" = some (.array values) →
    ∃ listed ∈ values, listed.Same value
  /-- The value is the given one. -/
  const {given : Json} : schema.get? "const" = some given → given.Same value
  /-- It is valid against a branch. -/
  anyOf {branches : List Json} : schema.get? "anyOf" = some (.array branches) →
    ∃ branch ∈ branches, valid branch value
  /-- It is valid against a branch. -/
  oneOf {branches : List Json} : schema.get? "oneOf" = some (.array branches) →
    ∃ branch ∈ branches, valid branch value
  /-- It is valid against all branches. -/
  allOf {branches : List Json} : schema.get? "allOf" = some (.array branches) →
    ∀ branch ∈ branches, valid branch value
  /-- It is of the type. -/
  type {name : String} : schema.get? "type" = some (.string name) → HasType name value
  /-- It is of one of the types. -/
  types {names : List Json} : schema.get? "type" = some (.array names) →
    ∃ name, .string name ∈ names ∧ HasType name value
  /-- Keywords of objects ask for an object. -/
  objectKind : schema.get? "type" = none → HasKeyword schema keywordsOfObjects →
    HasType "object" value
  /-- Else keywords of arrays ask for an array. -/
  arrayKind : schema.get? "type" = none → ¬HasKeyword schema keywordsOfObjects →
    HasKeyword schema keywordsOfArrays → HasType "array" value

/-- What the keywords of objects ask for. -/
structure SatisfiesObject (fields : List (String × Json)) : Prop where
  /-- Values of properties are valid against the schemas of these. -/
  properties {properties : List (String × Json)} {key : String} {property item : Json} :
    schema.get? "properties" = some (.object properties) → (key, property) ∈ properties →
    (key, item) ∈ fields → valid property item
  /-- Required keys are there. -/
  required {keys : List Json} {key : String} : schema.get? "required" = some (.array keys) →
    .string key ∈ keys → ∃ item, (key, item) ∈ fields
  /-- Other values are valid against the schema for them. -/
  additionalProperties {additional : Json} {key : String} {item : Json} :
    schema.get? "additionalProperties" = some additional → (key, item) ∈ fields →
    (∀ properties property, schema.get? "properties" = some (.object properties) →
      (key, property) ∉ properties) → valid additional item

/-- What the keywords of arrays ask for. -/
structure SatisfiesArray (items : List Json) : Prop where
  /-- Each item is valid against the schema for all of them. -/
  each {itemSchema item : Json} : schema.get? "items" = some itemSchema →
    (∀ schemas, itemSchema ≠ .array schemas) → item ∈ items → valid itemSchema item
  /-- Each item is valid against the schema at its position. -/
  list {schemas : List Json} {index : Nat} {itemSchema item : Json} :
    schema.get? "items" = some (.array schemas) → schemas[index]? = some itemSchema →
    items[index]? = some item → valid itemSchema item
  /-- Items behind those are valid against the schema for them. -/
  additionalItems {schemas : List Json} {index : Nat} {additional item : Json} :
    schema.get? "items" = some (.array schemas) →
    schema.get? "additionalItems" = some additional → schemas.length ≤ index →
    items[index]? = some item → valid additional item
  /-- There are not too few items. -/
  minItems {number : JsonNumber} : schema.get? "minItems" = some (.number number) →
    number.value ≤ items.length
  /-- There are not too many items. -/
  maxItems {number : JsonNumber} : schema.get? "maxItems" = some (.number number) →
    items.length ≤ number.value

/-- What the keywords of a schema ask for. -/
structure SatisfiesKeywords : Prop where
  /-- The type is not written out. -/
  tsType : schema.get? "tsType" = none
  /-- There are no patterns of keys. -/
  patternProperties : schema.get? "patternProperties" = none
  /-- The keywords about the whole value. -/
  general : SatisfiesGeneral valid schema value
  /-- The keywords of objects. -/
  object {fields : List (String × Json)} : value = .object fields →
    SatisfiesObject valid schema fields
  /-- The keywords of arrays. -/
  array {items : List Json} : value = .array items → SatisfiesArray valid schema items

/-- What a reference leads to: `#` and the pointer behind it. -/
def Refers (document : Json) (reference : String) (referred : Json) : Prop :=
  ∃ pointer node, reference.toList = '#' :: pointer ∧
    Pointer.resolve? document pointer = some node ∧ node.value = referred

/-- What a schema asks for. A reference overrides what stands beside it. -/
inductive Satisfies (document : Json) : Json → Json → Prop where
  | anything (value : Json) : Satisfies document (.bool true) value
  | reference {fields : List (String × Json)} {reference : String} {referred value : Json}
      (h : (Json.object fields).get? "$ref" = some (.string reference))
      (hr : Refers document reference referred) (hv : valid referred value) :
      Satisfies document (.object fields) value
  | keywords {fields : List (String × Json)} {value : Json}
      (h : (Json.object fields).get? "$ref" = none)
      (hk : SatisfiesKeywords valid (.object fields) value) :
      Satisfies document (.object fields) value

end Keywords

/-- A derivation of this depth shows that the value is valid. -/
def ValidWithin (document : Json) : Nat → Json → Json → Prop
  | 0, _, _ => False
  | depth + 1, schema, value => Satisfies (ValidWithin document depth) document schema value

/-- The value is valid against the schema, references being to the document. -/
def Valid (document schema value : Json) : Prop := ∃ depth, ValidWithin document depth schema value

end Schema

end LintTypes
