import LintTypes.Text.Casing
import LintTypes.Text.Identifier

/-!
# Names made from names

How the name of a rule becomes a type name and a file name, and a title an identifier.

* `no-unused-vars` is declared as `NoUnusedVars`: a hyphen goes and capitalizes what follows it.
* `style/indent` is declared as `Style_Indent` and kept in the file `style_indent`: a slash becomes
  an underscore.
* The title `1st choice` is declared as `_1stChoice`: the words of the title, each capitalized.
-/

namespace LintTypes.Names

/-- The characters that take part in the case rules: ASCII letters, digits and `_`. -/
def isWordChar (c : Char) : Bool := c.isAlphanum || c == '_'

/-- Drops each hyphen before a word character and capitalizes that character. -/
def capitalizeSegments : List Char → List Char
  | '-' :: c :: rest =>
    if isWordChar c then c.toUpper :: capitalizeSegments rest
    else '-' :: capitalizeSegments (c :: rest)
  | c :: rest => c :: capitalizeSegments rest
  | [] => []

/-- The name with its first character and the segments behind hyphens capitalized. -/
def pascalCase : List Char → List Char
  | [] => []
  | c :: rest => Casing.upper c ++ capitalizeSegments rest

/-- Writes `_` for each slash and `recase`s a word character right behind it. -/
def flattenSlashes (recase : Char → Char) : List Char → List Char
  | '/' :: c :: rest =>
    if isWordChar c then '_' :: recase c :: flattenSlashes recase rest
    else '_' :: flattenSlashes recase (c :: rest)
  | '/' :: [] => ['_']
  | c :: rest => c :: flattenSlashes recase rest
  | [] => []

/-- The name of the type that declares a rule's options. -/
def typeIdentifier (ruleName : String) : String :=
  String.ofList (flattenSlashes Char.toUpper (pascalCase ruleName.toList))

/-- The name of a rule's file, without its ending. -/
def fileName (ruleName : String) : String :=
  String.ofList (flattenSlashes Char.toLower ruleName.toList)

/-- The runs of name characters in a text. -/
def words (text : List Char) : List (List Char) :=
  go [] text
where
  /-- The words of `text`, the first one continued after `word`, which is kept backwards. -/
  go (word : List Char) : List Char → List (List Char)
  | [] => if word.isEmpty then [] else [word.reverse]
  | c :: rest =>
    if isNameChar c then go (c :: word) rest
    else if word.isEmpty then go [] rest
    else word.reverse :: go [] rest

/-- A word with its first character capitalized. -/
def capitalize : List Char → List Char
  | [] => []
  | c :: rest => c.toUpper :: rest

/-- An identifier made from a title: its capitalized words, after a `_` if there are none or if the
first starts with a digit. -/
def titleIdentifier (title : String) : String :=
  let joined := (words title.toList).flatMap capitalize
  match joined with
  | [] => "_"
  | c :: _ => String.ofList (if c.isDigit then '_' :: joined else joined)

/-- `base`, or else the first of `base1`, `base2`, … that is not taken. -/
def unusedName (taken : List String) (base : String) : String :=
  let numbered := (List.range taken.length).map fun n => base ++ toString (n + 1)
  ((base :: numbered).find? fun name => !taken.contains name).getD base

end LintTypes.Names
