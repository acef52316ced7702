import LintTypes.Entries
import LintTypes.Numeral.Shortest

/-!
# JSON values

Values with the order of object keys kept. An object holds each key once; `Json.ofEntries` builds
one from entries that may repeat a key, where the first position and the last value count.

Numbers are integers or binary64 numbers, as their text says. `Json.compact` writes a value without
blanks.
-/

namespace LintTypes

/-- The greatest number that 64 bits hold. -/
def JsonInteger.maxUnsigned : Nat := 0xFFFFFFFFFFFFFFFF

/-- The number with the greatest absolute value among the negative ones that 64 bits hold, without
its sign. -/
def JsonInteger.maxNegated : Nat := 0x8000000000000000

/-- An integer that 64 bits hold, with a sign or without one. -/
structure JsonInteger where
  /-- The integer itself. -/
  value : Int
  /-- Smaller ones are out of range. -/
  least : -(JsonInteger.maxNegated : Int) ≤ value
  /-- Greater ones are out of range. -/
  greatest : value ≤ JsonInteger.maxUnsigned
deriving DecidableEq, Repr

namespace JsonInteger

/-- A count. What 64 bits cannot hold is cut down to the greatest number that they can. -/
def ofCount (count : Nat) : JsonInteger where
  value := (min count maxUnsigned : Nat)
  least := Int.le_trans (by decide) (Int.natCast_nonneg _)
  greatest := Int.ofNat_le.2 (Nat.min_le_right ..)

instance : NatCast JsonInteger := ⟨ofCount⟩

instance (count : Nat) : OfNat JsonInteger count := ⟨ofCount count⟩

instance : Inhabited JsonInteger := ⟨0⟩

end JsonInteger

/-- A number of a JSON text. -/
inductive JsonNumber where
  /-- A number written without point and exponent, if 64 bits can hold it. -/
  | integer (value : JsonInteger)
  /-- Any other number. -/
  | real (value : Binary64)
deriving DecidableEq, Repr, Inhabited

namespace JsonNumber

/-- The decimal text of the number. -/
def text : JsonNumber → String
  | integer n => toString n.value
  | real x => String.ofList x.text

end JsonNumber

/-- A JSON value. -/
inductive Json where
  /-- `null`. -/
  | null
  /-- A truth value. -/
  | bool (value : Bool)
  /-- A number. -/
  | number (value : JsonNumber)
  /-- A string. -/
  | string (value : String)
  /-- An array. -/
  | array (items : List Json)
  /-- An object, its keys in order. -/
  | object (fields : List (String × Json))
deriving Inhabited

namespace Json

/-! ## Parts -/

/-- The value of a key of an object. -/
def get? (key : String) : Json → Option Json
  | object fields => fields.lookup key
  | _ => none

/-- The text of a string. -/
def string? : Json → Option String
  | string value => some value
  | _ => none

/-- The truth value. -/
def bool? : Json → Option Bool
  | bool value => some value
  | _ => none

/-- The items of an array. -/
def items? : Json → Option (List Json)
  | array items => some items
  | _ => none

/-- The fields of an object. -/
def fields? : Json → Option (List (String × Json))
  | object fields => some fields
  | _ => none

/-- A number written as a natural number. -/
def nat? : Json → Option Nat
  | number (.integer ⟨.ofNat n, _, _⟩) => some n
  | _ => none

/-- The object with the given entries. -/
def ofEntries (entries : List (String × Json)) : Json := object (Entries.unique entries)

/-- The number of values in a value, itself included. -/
def size : Json → Nat
  | array items => sizeItems items + 1
  | object fields => sizeFields fields + 1
  | _ => 1
where
  /-- The number of values in several values. -/
  sizeItems : List Json → Nat
  | [] => 0
  | item :: items => item.size + sizeItems items
  /-- The number of values in the values of fields. -/
  sizeFields : List (String × Json) → Nat
  | [] => 0
  | (_, value) :: fields => value.size + sizeFields fields

/-! ## Text -/

/-- One character inside a JSON string: quotes, backslashes and the characters below U+0020 are
escaped. -/
def escapeChar (c : Char) : List Char :=
  match c with
  | '"' => ['\\', '"']
  | '\\' => ['\\', '\\']
  | '\x08' => ['\\', 'b']
  | '\t' => ['\\', 't']
  | '\n' => ['\\', 'n']
  | '\x0c' => ['\\', 'f']
  | '\r' => ['\\', 'r']
  | c =>
    if c.toNat < 0x20 then
      ['\\', 'u', '0', '0', if c.toNat < 0x10 then '0' else '1', Nat.digitChar (c.toNat % 16)]
    else [c]

/-- A string in JSON notation. -/
def quoted (text : String) : String :=
  "\"" ++ String.ofList (text.toList.flatMap escapeChar) ++ "\""

mutual

/-- The text of a value, without blanks. -/
def compact : Json → String
  | null => "null"
  | bool value => if value then "true" else "false"
  | number value => value.text
  | string value => quoted value
  | array items => "[" ++ ",".intercalate (compactItems items) ++ "]"
  | object fields => "\x7b" ++ ",".intercalate (compactFields fields) ++ "\x7d"

/-- The texts of several values. -/
def compactItems : List Json → List String
  | [] => []
  | item :: items => item.compact :: compactItems items

/-- The texts of the fields of an object. -/
def compactFields : List (String × Json) → List String
  | [] => []
  | (key, value) :: fields => (quoted key ++ ":" ++ value.compact) :: compactFields fields

end

end Json

end LintTypes
