/-!
# Identifiers

The names that declarations may have: ASCII letters, digits, `_` and `$`, not starting with a digit.
-/

namespace LintTypes

/-- A letter, `_` or `$`. -/
def isNameStart (c : Char) : Bool := c.isAlpha || c == '_' || c == '$'

/-- A letter, a digit, `_` or `$`. -/
def isNameChar (c : Char) : Bool := c.isAlphanum || c == '_' || c == '$'

/-- Whether the characters form an identifier. -/
def isIdentifierChars : List Char → Bool
  | [] => false
  | c :: rest => isNameStart c && rest.all isNameChar

/-- Whether `name` is an identifier. -/
def isIdentifier (name : String) : Bool := isIdentifierChars name.toList

end LintTypes
