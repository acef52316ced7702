import LintTypes.Numeral.Shortest
import LintTypes.Text.DebugText

/-!
# Faults of JSON documents

What can be wrong with a document: its syntax, or a value of another kind than the place asks for.
A fault has a position in the text and a path through the document.
-/

namespace LintTypes

/-- A position in a text: the line, from one on, and the number of bytes before it on that line. -/
structure Position where
  /-- The number of the line. -/
  line : Nat := 1
  /-- The number of bytes of the line that come before. -/
  column : Nat := 0
deriving DecidableEq, Repr, Inhabited

namespace Position

/-- The position behind one more byte, which ends the line if it is a line feed. -/
def nextByte (p : Position) (c : Char) : Position :=
  if c = '\n' then ⟨p.line + 1, 0⟩ else ⟨p.line, p.column + 1⟩

/-- The position behind one more character. -/
def next (p : Position) (c : Char) : Position :=
  if c = '\n' then ⟨p.line + 1, 0⟩ else ⟨p.line, p.column + c.utf8Size⟩

end Position

/-- A value as messages speak of it. -/
inductive Found where
  /-- `null`. -/
  | null
  /-- A truth value. -/
  | bool (value : Bool)
  /-- An integer. -/
  | integer (value : Int)
  /-- A number with a point or an exponent, or beyond 64 bits. -/
  | real (value : Binary64)
  /-- A string. -/
  | string (value : String)
  /-- An array. -/
  | sequence
  /-- An object. -/
  | map
deriving DecidableEq, Repr

namespace Found

/-- The words for the value. -/
def label : Found → String
  | null => "null"
  | bool value => "boolean `" ++ (if value then "true" else "false") ++ "`"
  | integer value => "integer `" ++ toString value ++ "`"
  | real value => "floating point `" ++ String.ofList value.text ++ "`"
  | string value => "string " ++ DebugText.quoted value
  | sequence => "sequence"
  | map => "map"

end Found

/-- What is wrong. -/
inductive Problem where
  /-- The text ends where a value should be, or within one. -/
  | endInValue
  /-- The text ends within a string. -/
  | endInString
  /-- The text ends within an array. -/
  | endInArray
  /-- The text ends within an object. -/
  | endInObject
  /-- Something other than a value. -/
  | noValue
  /-- A word other than `null`, `true` and `false`. -/
  | badWord
  /-- A malformed number. -/
  | badNumber
  /-- A number beyond the greatest binary64 number. -/
  | numberOutOfRange
  /-- An unknown escape in a string, or one with digits that are none. -/
  | badEscape
  /-- A control character in a string. -/
  | controlCharacter
  /-- A second half of a surrogate pair without a first one. -/
  | loneSurrogate
  /-- A first half of a surrogate pair without a second one. -/
  | halfSurrogatePair
  /-- A key that is no string. -/
  | badKey
  /-- No `:` after a key. -/
  | noColon
  /-- Neither a comma nor the closing bracket after an item. -/
  | noCommaInArray
  /-- Neither a comma nor the closing brace after a field. -/
  | noCommaInObject
  /-- A comma that nothing follows. -/
  | trailingComma
  /-- More items than the place has room for. -/
  | trailingCharacters
  /-- Too many arrays and objects inside each other. -/
  | tooDeep
  /-- A value of another kind. -/
  | wrongKind (found : Found) (expected : String)
  /-- A value of the right kind that is out of range. -/
  | wrongValue (found : Found) (expected : String)
  /-- An array with too few items. -/
  | tooShort (length : Nat) (expected : String)
  /-- A field that has to be there and is not. -/
  | missingField (name : String)
  /-- A field that is there twice. -/
  | duplicateField (name : String)
deriving DecidableEq, Repr

namespace Problem

/-- The words for the problem. -/
def message : Problem → String
  | endInValue => "EOF while parsing a value"
  | endInString => "EOF while parsing a string"
  | endInArray => "EOF while parsing a list"
  | endInObject => "EOF while parsing an object"
  | noValue => "expected value"
  | badWord => "expected ident"
  | badNumber => "invalid number"
  | numberOutOfRange => "number out of range"
  | badEscape => "invalid escape"
  | controlCharacter => "control character (\\u0000-\\u001F) found while parsing a string"
  | loneSurrogate => "lone leading surrogate in hex escape"
  | halfSurrogatePair => "unexpected end of hex escape"
  | badKey => "key must be a string"
  | noColon => "expected `:`"
  | noCommaInArray => "expected `,` or `]`"
  | noCommaInObject => "expected `,` or `\x7d`"
  | trailingComma => "trailing comma"
  | trailingCharacters => "trailing characters"
  | tooDeep => "recursion limit exceeded"
  | wrongKind found expected => "invalid type: " ++ found.label ++ ", expected " ++ expected
  | wrongValue found expected => "invalid value: " ++ found.label ++ ", expected " ++ expected
  | tooShort length expected =>
    "invalid length " ++ toString length ++ ", expected " ++ expected
  | missingField name => "missing field `" ++ name ++ "`"
  | duplicateField name => "duplicate field `" ++ name ++ "`"

end Problem

/-- A step of a path through a document. -/
inductive PathStep where
  /-- Into the value of a key. -/
  | key (name : String)
  /-- Into an item of an array. -/
  | item (index : Nat)
  /-- Into a field whose key could not be read. -/
  | unknown
deriving DecidableEq, Repr

namespace PathStep

/-- A path in words. Keys are joined by points, items are in brackets, and the path to the whole
document is a point. -/
def describe : List PathStep → String
  | [] => "."
  | steps => go true steps
where
  /-- The steps of a path; only at its start a key has no point before it. -/
  go (first : Bool) : List PathStep → String
  | [] => ""
  | key name :: steps => (if first then "" else ".") ++ name ++ go false steps
  | unknown :: steps => (if first then "" else ".") ++ "?" ++ go false steps
  | item index :: steps => "[" ++ toString index ++ "]" ++ go false steps

end PathStep

/-- A fault of a document. -/
structure Fault where
  /-- What is wrong. -/
  problem : Problem
  /-- Where in the text. -/
  position : Position
  /-- Where in the document. -/
  path : List PathStep := []
deriving DecidableEq, Repr

namespace Fault

/-- The same fault, seen from outside the part that `step` leads into. -/
def under (step : PathStep) (fault : Fault) : Fault := { fault with path := step :: fault.path }

/-- The fault in words. -/
def message (fault : Fault) : String :=
  "at JSON path " ++ PathStep.describe fault.path ++ " → " ++ fault.problem.message
    ++ " at line " ++ toString fault.position.line
    ++ " column " ++ toString fault.position.column

end Fault

end LintTypes
