import LintTypes.Schema.Arrays
import LintTypes.Schema.Hoisting
import LintTypes.Source.Grammar
import LintTypes.Style
import LintTypes.Text.Blank

/-!
# Types of schemas

The type of the values that a schema describes. A schema speaks through the first of these keywords
that it has: `$ref`, `tsType`, `enum`, `const`, `anyOf`, `oneOf`, `allOf`, `type`; without any of
them it describes objects or arrays if it has one of their keywords, and everything otherwise.

The functions up to `Schema.typeOfSchema` work out one schema, given `typeOf` for the schemas inside
it and `follow` for references. `Schema.typeAt` ties the knot: it hoists titled schemas, and refuses
a reference that is still being followed when it is met again. Its depth is bounded by a number,
since references may lead anywhere in the document; `Schema.depthBound` is enough for every
document, because on the way down each untitled reference is followed at most once, each titled
schema is entered at most once, and in between the way leads downwards.
-/

namespace LintTypes.Schema

/-- What the types of a document depend on. -/
structure Context where
  /-- The document that references are resolved in. -/
  document : Json
  /-- The name of the type of the whole document. -/
  name : String
  /-- The user's choices. -/
  style : Style

/-- The type of unconstrained values. -/
def Context.unknown (context : Context) : TypeExpr :=
  if context.style.unknownAny then .unknown else .any

/-- The text of the doc comment of a schema. -/
def comment? (schema : Json) : Option String :=
  let description := (schema.get? "description").bind Json.string?
  match (schema.get? "deprecated").bind Json.bool?, description with
  | some true, some description => some ("@deprecated\n" ++ description)
  | some true, none => some "@deprecated"
  | _, description => description

/-- The type of one value. -/
def literalType (value : Json) : Hoisting TypeExpr :=
  match value with
  | .string text => return .literal (.string text)
  | .number number => return .literal (.number number.text)
  | .bool value => return .literal (.bool value)
  | .null => return .null
  | value => .fail (.badLiteral value)

/-- The type that is written out as text: read if it can be, and passed on as it is if not. -/
def writtenType (text : String) : TypeExpr :=
  match TypeExpr.ofSource text with
  | .ok type => type
  | .error _ => .verbatim (String.ofList (Blank.trim text.toList))

/-- The bounds on the length of an array. -/
def boundsOf (style : Style) (schema : Json) : ArrayType.Bounds :=
  if style.ignoreMinAndMaxItems then ⟨0, none⟩
  else
    { least := ((schema.get? "minItems").bind Json.nat?).getD 0
      greatest := (schema.get? "maxItems").bind Json.nat? }

/-- The keys that an object must have. -/
def requiredKeys (schema : Json) : List String :=
  (((schema.get? "required").bind Json.items?).getD []).filterMap Json.string?

/-- The keywords that only object schemas have. -/
def keywordsOfObjects : List String :=
  ["properties", "additionalProperties", "required", "patternProperties"]

/-- The keywords that only array schemas have. -/
def keywordsOfArrays : List String := ["items", "additionalItems", "minItems", "maxItems"]

section Keywords

variable (context : Context) (typeOf : Node → Hoisting TypeExpr)
  (follow : String → Hoisting TypeExpr)

/-- The members for the properties of an object schema. -/
def propertyMembers (node : Node) : Hoisting (List Member) := do
  match node.field? "properties" with
  | none => return []
  | some properties =>
    match properties.value with
    | .object _ =>
      properties.fields.mapM fun (key, property) => do
        let type ← typeOf property
        return .property key type (!(requiredKeys node.value).contains key)
          (comment? property.value)
    | _ => .fail .propertiesNotObject

/-- The member for the other keys of an object schema. -/
def indexMembers (node : Node) : Hoisting (List Member) := do
  match node.field? "additionalProperties" with
  | none =>
    return if context.style.additionalProperties then [.anyKey context.unknown] else []
  | some additional =>
    match additional.value with
    | .bool false => return []
    | .bool true => return [.anyKey context.unknown]
    | .object _ => return [.anyKey (← typeOf additional)]
    | value => .fail (.badAdditionalProperties value)

/-- The type of an object schema. -/
def typeOfObject (node : Node) : Hoisting TypeExpr := do
  let members ← propertyMembers typeOf node
  return .object (members ++ (← indexMembers context typeOf node))

/-- The type of the items behind those that have a schema of their own, if there may be any. -/
def restType (node : Node) (bounds : ArrayType.Bounds) : Hoisting (Option TypeExpr) := do
  let unbounded := if bounds.greatest.isNone then some context.unknown else none
  match node.field? "additionalItems" with
  | none => return unbounded
  | some additional =>
    match additional.value with
    | .bool true => return unbounded
    | .object _ => return some (← typeOf additional)
    | _ => return none

/-- The type of an array schema. -/
def typeOfArray (node : Node) : Hoisting TypeExpr := do
  let bounds := boundsOf context.style node.value
  match node.field? "items" with
  | none => return ArrayType.uniform context.unknown context.unknown bounds
  | some items =>
    match items.value with
    | .array _ =>
      let types ← items.items.mapM typeOf
      let types := match bounds.greatest with
        | some greatest => types.take greatest
        | none => types
      return ArrayType.ofItems context.unknown types bounds (← restType context typeOf node bounds)
    | .object _ | .bool _ => return ArrayType.uniform context.unknown (← typeOf items) bounds
    | value => .fail (.badItems value)

/-- The type of a schema with the type name `name`. -/
def typeNamed (name : String) (node : Node) : Hoisting TypeExpr :=
  match name with
  | "string" => return .string
  | "number" | "integer" => return .number
  | "boolean" => return .boolean
  | "null" => return .null
  | "any" => return context.unknown
  | "object" => typeOfObject context typeOf node
  | "array" => typeOfArray context typeOf node
  | name => .fail (.unknownType name)

/-- The types of the branches under a keyword. -/
def branchTypes (keyword : String) (branches : Node) : Hoisting (List TypeExpr) :=
  match branches.value with
  | .array _ => branches.items.mapM typeOf
  | _ => .fail (.branchesNotArray keyword)

/-- The type of a schema that has none of the keywords in front of `type`. -/
def typeByKind (node : Node) : Hoisting TypeExpr :=
  match node.value.get? "type" with
  | some (.string name) => typeNamed context typeOf name node
  | some (.array names) => do
    let types ← names.mapM fun
      | .string name => typeNamed context typeOf name node
      | value => .fail (.badTypeName value)
    return .unionOf types
  | some value => .fail (.badType value)
  | none =>
    let has (keyword : String) : Bool := (node.value.get? keyword).isSome
    if keywordsOfObjects.any has then typeOfObject context typeOf node
    else if keywordsOfArrays.any has then typeOfArray context typeOf node
    else return context.unknown

/-- The type of a schema that is an object. -/
def typeByKeywords (node : Node) : Hoisting TypeExpr := do
  if let some reference := node.value.get? "$ref" then
    match reference with
    | .string reference => follow reference
    | _ => .fail .refNotString
  else if let some text := (node.value.get? "tsType").bind Json.string? then
    return writtenType text
  else if let some values := node.value.get? "enum" then
    match values with
    | .array values => return .unionOf (← values.mapM literalType)
    | _ => .fail .enumNotArray
  else if let some value := node.value.get? "const" then
    literalType value
  else if let some branches := node.field? "anyOf" then
    return .unionOf (← branchTypes typeOf "anyOf" branches)
  else if let some branches := node.field? "oneOf" then
    return .unionOf (← branchTypes typeOf "oneOf" branches)
  else if let some branches := node.field? "allOf" then
    return .intersectionOf (← branchTypes typeOf "allOf" branches)
  else
    typeByKind context typeOf node

/-- The type of a schema, its title aside. -/
def typeOfSchema (node : Node) : Hoisting TypeExpr :=
  match node.value with
  | .object _ => typeByKeywords context typeOf follow node
  | .bool true => return context.unknown
  | .bool false => return .never
  | value => .fail (.noSchema value)

end Keywords

/-- What `reference` leads to: the document itself by its name, or another node of it. -/
inductive Target where
  /-- The whole document. -/
  | document
  /-- A node of the document. -/
  | node (node : Node)

/-- The target of a reference. -/
def target (context : Context) (reference : String) : Except SchemaProblem Target :=
  match reference.toList with
  | ['#'] => .ok .document
  | '#' :: pointer =>
    match Pointer.resolve? context.document pointer with
    | some node => .ok (.node node)
    | none => .error (.unresolvable reference)
  | _ => .error (.foreignReference reference)

/-- The type of the schema that a reference leads to. `active` are the references that are being
followed, and `typeAt` works out a node while following given ones. -/
def referredType (context : Context) (typeAt : List String → Node → Hoisting TypeExpr)
    (active : List String) (reference : String) : Hoisting TypeExpr :=
  match target context reference with
  | .error problem => .fail problem
  | .ok .document => return .named context.name
  | .ok (.node node) =>
    if node.title?.isSome then typeAt active node
    else if active.contains reference then .fail (.untitledCycle reference)
    else typeAt (reference :: active) node

/-- The type of a schema in the document, to a depth, while the references `active` are being
followed. A schema with a title is declared by its name when it is first met. -/
def typeAt (context : Context) (depth : Nat) (active : List String) (node : Node) :
    Hoisting TypeExpr :=
  match depth with
  | 0 => .tooDeep
  | depth + 1 =>
    let body :=
      typeOfSchema context (typeAt context depth active)
        (referredType context (typeAt context depth) active) node
    match node.title? with
    | none => body
    | some title => do
      match ← Hoisting.nameOf? node.path with
      | some name => return .named name
      | none =>
        let name ← Hoisting.giveName node.path title
        let type ← body
        Hoisting.declare (.ofType name type (comment? node.value))
        return .named name

/-- The type of the whole document, whose title names nothing. -/
def typeOfDocument (context : Context) (depth : Nat) : Hoisting TypeExpr :=
  typeOfSchema context (typeAt context depth []) (referredType context (typeAt context depth) [])
    (.root context.document)

/-- A depth that is enough for every computation on a document. -/
def depthBound (document : Json) : Nat := 2 * (document.size + 1) * (document.size + 1)

/-- The declarations of a document: first its own, under `name`, and then those of the titled
schemas in it, each behind those that it was the first to use. -/
def declarations (document : Json) (name : String) (style : Style) :
    Except SchemaProblem Declarations :=
  match typeOfDocument ⟨document, name, style⟩ (depthBound document) { taken := [name] } with
  | .done type hoisted =>
    .ok (.ofType name type (comment? document) :: hoisted.declarations)
  | .failed problem => .error problem
  | .tooDeep => .error (.rejected "the schema is nested too deeply")

end LintTypes.Schema
