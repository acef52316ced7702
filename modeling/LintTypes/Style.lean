/-!
# Style of the generated declarations

The choices that a user makes about how types are read off a schema and how the declarations are
written. Every field has a default, so a configuration names only what it changes.
-/

namespace LintTypes

/-- How declarations are derived and laid out. -/
structure Style where
  /-- Text written above the declarations, followed by a blank line; nothing when empty. -/
  bannerComment : String := ""
  /-- End aliases and members with a semicolon. -/
  semi : Bool := false
  /-- Prefer `'` over `"` as the quote of string literals. -/
  singleQuote : Bool := true
  /-- An object schema that does not mention `additionalProperties` allows them. -/
  additionalProperties : Bool := true
  /-- Write `unknown` rather than `any` for an unconstrained value. -/
  unknownAny : Bool := true
  /-- Read arrays without their `minItems` and `maxItems`. -/
  ignoreMinAndMaxItems : Bool := false
  /-- The number of characters that a one-line type may fill. -/
  printWidth : Nat := 80
deriving DecidableEq, Repr, Inhabited

end LintTypes
