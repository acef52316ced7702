import LintTypes.Json.Equality

/-!
# Problems of schemas

Why a schema has no declarations.
-/

namespace LintTypes

/-- What keeps a schema from being declared. -/
inductive SchemaProblem where
  /-- A schema that is neither an object nor a truth value. -/
  | noSchema (value : Json)
  /-- A `$ref` that is no string. -/
  | refNotString
  /-- An `enum` that is no array. -/
  | enumNotArray
  /-- A value in `enum` or `const` that has no literal. -/
  | badLiteral (value : Json)
  /-- An `anyOf`, `oneOf` or `allOf` that is no array. -/
  | branchesNotArray (keyword : String)
  /-- An item of a `type` array that is no string. -/
  | badTypeName (value : Json)
  /-- A `type` that is neither a string nor an array. -/
  | badType (value : Json)
  /-- A type name that does not exist. -/
  | unknownType (name : String)
  /-- A reference to another document. -/
  | foreignReference (reference : String)
  /-- A reference to nowhere. -/
  | unresolvable (reference : String)
  /-- A reference that leads back to itself without passing a schema that is declared by name. -/
  | untitledCycle (reference : String)
  /-- `properties` that are no object. -/
  | propertiesNotObject
  /-- An `additionalProperties` that is no schema. -/
  | badAdditionalProperties (value : Json)
  /-- An `items` that is neither a schema nor an array. -/
  | badItems (value : Json)
  /-- A reason that another declarer gives. -/
  | rejected (reason : String)
deriving DecidableEq

namespace SchemaProblem

/-- The words for the problem. -/
def message : SchemaProblem → String
  | noSchema value => "expected a schema object, found " ++ value.compact
  | refNotString => "`$ref` must be a string"
  | enumNotArray => "`enum` must be an array"
  | badLiteral value => "unsupported literal " ++ value.compact
  | branchesNotArray keyword => "`" ++ keyword ++ "` must be an array"
  | badTypeName value => "invalid type name " ++ value.compact
  | badType value => "invalid `type` " ++ value.compact
  | unknownType name => "unknown type `" ++ name ++ "`"
  | foreignReference reference =>
    "only local references are supported, got `" ++ reference ++ "`"
  | unresolvable reference => "unresolvable reference `" ++ reference ++ "`"
  | untitledCycle reference => "recursive reference `" ++ reference ++ "` needs a `title`"
  | propertiesNotObject => "`properties` must be an object"
  | badAdditionalProperties value => "invalid `additionalProperties` " ++ value.compact
  | badItems value => "invalid `items` " ++ value.compact
  | rejected reason => reason

end SchemaProblem

end LintTypes
