import LintTypes.Json.Basic
import LintTypes.Json.Fault
import LintTypes.Text.HexDigit

/-!
# Reading JSON

A text is read from the front, with the position of every fault. Values that are kept are read by
`Json.read`, which refuses too many arrays and objects inside each other. Values that nobody asks
for are passed over by `Json.skip`: only their syntax counts, so numbers of any size and any nesting
will do.

Lists of characters, items and fields are all read by `collect`, which repeats a step for as long as
it yields something. Every step takes up some text, so there are no more steps than the text has
characters; every place knows a bound on their number.
-/

namespace LintTypes

/-- A place in a text: what follows, and its position. -/
structure Cursor where
  /-- The text from here on. -/
  rest : List Char
  /-- The position of this place. -/
  position : Position := {}
  /-- A bound on the length of the text. -/
  bound : Nat
deriving Repr

/-- A way to read a value from a place on. -/
abbrev Reading (α : Type) := Cursor → Except Fault (α × Cursor)

namespace Cursor

/-- The start of a text. -/
def start (text : String) : Cursor where
  rest := text.toList
  bound := text.length + 1

/-- The place behind the next character. -/
def advance (c : Cursor) : Cursor :=
  match c.rest with
  | [] => c
  | x :: rest => { c with rest, position := c.position.next x }

/-- The place behind the next `n` characters. -/
def advanceBy : Nat → Cursor → Cursor
  | 0, c => c
  | n + 1, c => advanceBy n c.advance

/-- The position behind the next byte, if there is one. -/
def peekPosition (c : Cursor) : Position :=
  match c.rest with
  | [] => c.position
  | x :: _ => c.position.nextByte x

/-- The position behind the next `n` bytes; a character may be cut. -/
def bytePosition (n : Nat) (c : Cursor) : Position :=
  go n c.rest c.position
where
  /-- The position `n` bytes further on. -/
  go (n : Nat) : List Char → Position → Position
  | [], p => p
  | x :: rest, p =>
    if n = 0 then p
    else if x.utf8Size ≤ n then go (n - x.utf8Size) rest (p.next x)
    else ⟨p.line, p.column + n⟩

/-- A fault at this place. -/
def fault {α : Type} (c : Cursor) (problem : Problem) : Except Fault α :=
  .error ⟨problem, c.position, []⟩

/-- A fault of the character at this place; its position is behind the first byte. -/
def faultHere {α : Type} (c : Cursor) (problem : Problem) : Except Fault α :=
  .error ⟨problem, c.peekPosition, []⟩

/-- The place of the next character that is no blank. -/
def skipSpace (c : Cursor) : Cursor :=
  let (rest, position) := go c.rest c.position
  { c with rest, position }
where
  /-- Passes over spaces, tabs, carriage returns and line feeds. -/
  go : List Char → Position → List Char × Position
  | [], p => ([], p)
  | x :: rest, p =>
    if x = ' ' ∨ x = '\t' ∨ x = '\r' ∨ x = '\n' then go rest (p.next x) else (x :: rest, p)

end Cursor

namespace Json

open Cursor

/-- What `action` reads, with its faults seen from outside the part that `step` leads into. -/
def inside {α : Type} (step : PathStep) (action : Reading α) : Reading α := fun c =>
  (action c).mapError (·.under step)

/-- Repeats `step`, counting from `index` on, until it yields nothing, but at most `count` times. -/
def collectUpTo {α : Type} (step : Nat → Reading (Option α)) (count index : Nat) :
    Reading (List α) := fun c =>
  match count with
  | 0 => .ok ([], c)
  | count + 1 =>
    match step index c with
    | .error fault => .error fault
    | .ok (none, after) => .ok ([], after)
    | .ok (some value, after) =>
      match collectUpTo step count (index + 1) after with
      | .error fault => .error fault
      | .ok (values, after) => .ok (value :: values, after)

/-- Repeats `step`, counting from zero on, until it yields nothing. -/
def collect {α : Type} (step : Nat → Reading (Option α)) : Reading (List α) := fun c =>
  collectUpTo step c.bound 0 c

/-! ## Words -/

/-- Reads the given characters. -/
def readWord : List Char → Reading Unit
  | [], c => .ok ((), c)
  | x :: word, c =>
    match c.rest with
    | [] => c.fault .endInValue
    | y :: _ => if y = x then readWord word c.advance else c.faultHere .badWord

/-! ## Strings -/

/-- Reads four hexadecimal digits. Four bytes count as read even if they are no digits. -/
def readHex : Reading Nat := fun c =>
  let digits := c.rest.take 4
  match hexNumber? digits, decide (digits.length = 4) with
  | some value, true => .ok (value, c.advanceBy 4)
  | _, _ =>
    if 4 ≤ (String.ofList digits).utf8ByteSize then .error ⟨.badEscape, c.bytePosition 4, []⟩
    else .error ⟨.endInString, c.bytePosition 4, []⟩

/-- Reads `expected`, which has to follow the first half of a surrogate pair. -/
def readPairMark (expected : Char) : Reading Unit := fun c =>
  match c.rest with
  | [] => c.fault .endInString
  | x :: _ => if x = expected then .ok ((), c.advance) else c.faultHere .halfSurrogatePair

/-- Reads the digits behind `\u`, and a whole second escape if they are the first half of a
surrogate pair. -/
def readUnicodeEscape : Reading Char := fun c => do
  let (code, c) ← readHex c
  if 0xDC00 ≤ code ∧ code ≤ 0xDFFF then c.fault .loneSurrogate
  else if 0xD800 ≤ code ∧ code ≤ 0xDBFF then
    let ((), c) ← readPairMark '\\' c
    let ((), c) ← readPairMark 'u' c
    let (second, c) ← readHex c
    if 0xDC00 ≤ second ∧ second ≤ 0xDFFF then
      return (Char.ofNat ((code - 0xD800) * 0x400 + (second - 0xDC00) + 0x10000), c)
    else c.fault .loneSurrogate
  else return (Char.ofNat code, c)

/-- The character that a letter behind a backslash stands for. -/
def simpleEscape? (c : Char) : Option Char :=
  match c with
  | '"' => some '"'
  | '\\' => some '\\'
  | '/' => some '/'
  | 'b' => some '\x08'
  | 'f' => some '\x0c'
  | 'n' => some '\n'
  | 'r' => some '\r'
  | 't' => some '\t'
  | _ => none

/-- Reads what follows a backslash; `unicode` reads what follows `\u`. -/
def readEscape (unicode : Reading Char) : Reading Char := fun c =>
  match c.rest with
  | [] => c.fault .endInString
  | 'u' :: _ => unicode c.advance
  | x :: _ =>
    match simpleEscape? x with
    | some value => .ok (value, c.advance)
    | none => c.faultHere .badEscape

/-- Reads one character of a string, or its closing quote. -/
def readStringChar : Reading (Option Char) := fun c =>
  match c.rest with
  | [] => c.fault .endInString
  | '"' :: _ => .ok (none, c.advance)
  | '\\' :: _ => do
    let (value, c) ← readEscape readUnicodeEscape c.advance
    return (some value, c)
  | x :: _ =>
    if x.toNat < 0x20 then c.advance.fault .controlCharacter else .ok (some x, c.advance)

/-- Reads a string behind its opening quote. -/
def readStringTail : Reading String := fun c => do
  let (chars, c) ← collect (fun _ => readStringChar) c
  return (String.ofList chars, c)

/-- Passes over one character of a string, or its closing quote. Escaped surrogates need no
partner. -/
def skipStringChar : Reading (Option Unit) := fun c =>
  match c.rest with
  | [] => c.fault .endInString
  | '"' :: _ => .ok (none, c.advance)
  | '\\' :: _ => do
    let (_, c) ← readEscape (fun c => do
      let (_, c) ← readHex c
      return ('u', c)) c.advance
    return (some (), c)
  | x :: _ => if x.toNat < 0x20 then c.fault .controlCharacter else .ok (some (), c.advance)

/-- Passes over a string behind its opening quote. -/
def skipStringTail : Reading Unit := fun c => do
  let (_, c) ← collect (fun _ => skipStringChar) c
  return ((), c)

/-! ## Numbers -/

/-- The greatest exponent that is read to its end. -/
def maxExponent : Nat := 0x7FFFFFFF

/-- The value of a digit. -/
def digitValue (c : Char) : Nat := c.toNat - '0'.toNat

/-- Reads the digits at this place, of which there may be none. -/
def takeDigits (c : Cursor) : List Char × Cursor :=
  let digits := c.rest.takeWhile Char.isDigit
  (digits, c.advanceBy digits.length)

/-- Takes digits into a significand for as long as 64 bits hold it. The significand, and the number
of digits taken. -/
def gather (significand : Nat) : List Char → Nat × Nat
  | [] => (significand, 0)
  | d :: digits =>
    let next := significand * 10 + digitValue d
    if JsonInteger.maxUnsigned < next then (significand, 0)
    else
      let (value, count) := gather next digits
      (value, count + 1)

/-- The number `significand * 10 ^ exponent` with its sign, which has been read up to here. -/
def realNumber (negative : Bool) (significand : Nat) (exponent : Int) :
    Reading JsonNumber := fun c =>
  match Binary64.ofDecimal? significand exponent with
  | none => c.fault .numberOutOfRange
  | some x => .ok (.real (if negative then x.neg else x), c)

/-- The number with these digits and its sign, which has been read up to here: an integer, if 64
bits hold it and it is not a zero with a sign. -/
def wholeNumber (negative : Bool) (significand : Nat) : Reading JsonNumber := fun c =>
  let value : Int := if negative then -significand else significand
  if negative ∧ significand = 0 then realNumber negative significand 0 c
  else if inRange : -(JsonInteger.maxNegated : Int) ≤ value ∧ value ≤ JsonInteger.maxUnsigned then
    .ok (.integer ⟨value, inRange.1, inRange.2⟩, c)
  else realNumber negative significand 0 c

/-- Reads an exponent behind its `e`. -/
def readExponent (negative : Bool) (significand : Nat) (exponent : Int) : Reading JsonNumber :=
  fun c =>
    let (down, c) := match c.rest with
      | '+' :: _ => (false, c.advance)
      | '-' :: _ => (true, c.advance)
      | _ => (false, c)
    match c.rest with
    | [] => c.fault .endInValue
    | x :: _ =>
      if x.isDigit then
        let digits := c.rest.takeWhile Char.isDigit
        -- The digits up to the first one that makes the exponent too great.
        let fits := (List.range digits.length).takeWhile fun n =>
          (digits.take (n + 1)).foldl (fun value d => value * 10 + digitValue d) 0 ≤ maxExponent
        if fits.length < digits.length then
          if significand ≠ 0 ∧ !down then (c.advanceBy (fits.length + 1)).fault .numberOutOfRange
          else realNumber negative 0 0 (c.advanceBy digits.length)
        else
          let value := digits.foldl (fun value d => value * 10 + digitValue d) 0
          realNumber negative significand (if down then exponent - value else exponent + value)
            (c.advanceBy digits.length)
      else c.faultHere .badNumber

/-- Reads what may follow the digits and the fraction of a number. -/
def readRealEnd (negative : Bool) (significand : Nat) (exponent : Int) : Reading JsonNumber :=
  fun c =>
    match c.rest with
    | 'e' :: _ | 'E' :: _ => readExponent negative significand exponent c.advance
    | _ => realNumber negative significand exponent c

/-- Reads a fraction behind its point. Digits beyond 64 bits are passed over. -/
def readFraction (negative : Bool) (significand : Nat) (exponent : Int) : Reading JsonNumber :=
  fun c =>
    match takeDigits c with
    | ([], after) =>
      if after.rest.isEmpty then after.fault .endInValue else after.faultHere .badNumber
    | (digits, after) =>
      let (significand, taken) := gather significand digits
      readRealEnd negative significand (exponent - taken) after

/-- Reads a number behind its sign. -/
def readNumber (negative : Bool) : Reading JsonNumber := fun c =>
  match c.rest with
  | [] => c.fault .endInValue
  | x :: _ =>
    if x.isDigit then
      let (digits, after) := if x = '0' then (['0'], c.advance) else takeDigits c
      let (significand, taken) := gather 0 digits
      if x = '0' ∧ (after.rest.head?.any Char.isDigit) then after.faultHere .badNumber
      else
        let exponent : Int := (digits.length : Int) - taken
        match after.rest with
        | '.' :: _ => readFraction negative significand exponent after.advance
        | 'e' :: _ | 'E' :: _ => readExponent negative significand exponent after.advance
        | _ =>
          if 0 < exponent then realNumber negative significand exponent after
          else wholeNumber negative significand after
    else c.faultHere .badNumber

/-- Passes over an exponent behind its `e`. -/
def skipExponent : Reading Unit := fun c =>
  let c := match c.rest with
    | '+' :: _ | '-' :: _ => c.advance
    | _ => c
  if c.rest.head?.any Char.isDigit then .ok ((), (takeDigits c).2)
  else c.faultHere .badNumber

/-- Passes over what may follow the digits and the fraction of a number. -/
def skipRealEnd : Reading Unit := fun c =>
  match c.rest with
  | 'e' :: _ | 'E' :: _ => skipExponent c.advance
  | _ => .ok ((), c)

/-- Passes over a number behind its sign. -/
def skipNumber : Reading Unit := fun c =>
  if c.rest.head?.any Char.isDigit then
    let zero := c.rest.head? = some '0'
    let after := if zero then c.advance else (takeDigits c).2
    if zero ∧ after.rest.head?.any Char.isDigit then after.faultHere .badNumber
    else match after.rest with
      | '.' :: _ =>
        match takeDigits after.advance with
        | ([], after) => after.faultHere .badNumber
        | (_, after) => skipRealEnd after
      | _ => skipRealEnd after
  else c.faultHere .badNumber

/-! ## Arrays and objects -/

/-- Reads the next item of an array, or stops before its bracket. -/
def readItem {α : Type} (item : Reading α) : Nat → Reading (Option α) := fun index c =>
  let c := c.skipSpace
  let read (c : Cursor) : Except Fault (Option α × Cursor) := do
    let (value, c) ← inside (.item index) item c
    return (some value, c)
  match c.rest with
  | [] => c.faultHere .endInArray
  | ']' :: _ => .ok (none, c)
  | x :: _ =>
    if index = 0 then read c
    else if x = ',' then
      let c := c.advance.skipSpace
      match c.rest with
      | [] => c.faultHere .endInValue
      | ']' :: _ => c.faultHere .trailingComma
      | _ => read c
    else c.faultHere .noCommaInArray

/-- Reads the next key of an object, or stops before its brace. -/
def readKey (index : Nat) : Reading (Option String) := fun c =>
  let c := c.skipSpace
  let read (c : Cursor) : Except Fault (Option String × Cursor) :=
    match c.rest with
    | '"' :: _ => do
      let (key, c) ← readStringTail c.advance
      return (some key, c)
    | _ => c.faultHere .badKey
  match c.rest with
  | [] => c.faultHere .endInObject
  | '}' :: _ => .ok (none, c)
  | x :: _ =>
    if index = 0 then read c
    else if x = ',' then
      let c := c.advance.skipSpace
      match c.rest with
      | [] => c.faultHere .endInValue
      | '}' :: _ => c.faultHere .trailingComma
      | _ => read c
    else c.faultHere .noCommaInObject

/-- Reads the colon behind a key. -/
def readColon : Reading Unit := fun c =>
  let c := c.skipSpace
  match c.rest with
  | ':' :: _ => .ok ((), c.advance)
  | [] => c.faultHere .endInObject
  | _ => c.faultHere .noColon

/-- Reads the next field of an object, or stops before its brace. `value` reads the value of a
key. -/
def readField {α : Type} (value : String → Reading α) : Nat → Reading (Option (String × α)) :=
  fun index c => do
    let (key?, c) ← inside .unknown (readKey index) c
    match key? with
    | none => return (none, c)
    | some key =>
      let ((), c) ← readColon c
      let (value, c) ← inside (.key key) (value key) c
      return (some (key, value), c)

/-- Reads the items of an array behind its bracket, and the closing bracket. -/
def readItems {α : Type} (item : Reading α) : Reading (List α) := fun c => do
  let (items, c) ← collect (readItem item) c
  return (items, c.advance)

/-- Reads the fields of an object behind its brace, and the closing brace. -/
def readFields {α : Type} (value : String → Reading α) : Reading (List (String × α)) := fun c => do
  let (fields, c) ← collect (readField value) c
  return (fields, c.advance)

/-- Passes over the next item of an array, or stops before its bracket. -/
def skipItem (item : Reading Unit) : Nat → Reading (Option Unit) := fun index c =>
  let c := c.skipSpace
  let read (c : Cursor) : Except Fault (Option Unit × Cursor) := do
    let ((), c) ← item c
    return (some (), c)
  match c.rest with
  | [] => c.faultHere .endInArray
  | ']' :: _ => .ok (none, c)
  | x :: _ =>
    if index = 0 then read c
    else if x = ',' then read c.advance
    else c.faultHere .noCommaInArray

/-- Passes over the next field of an object, or stops before its brace. -/
def skipField (value : Reading Unit) : Nat → Reading (Option Unit) := fun index c =>
  let c := c.skipSpace
  let read (c : Cursor) : Except Fault (Option Unit × Cursor) :=
    let c := c.skipSpace
    match c.rest with
    | [] => c.faultHere .endInObject
    | '"' :: _ => do
      let ((), c) ← skipStringTail c.advance
      let ((), c) ← readColon c
      let ((), c) ← value c
      return (some (), c)
    | _ => c.faultHere .badKey
  match c.rest with
  | [] => c.faultHere .endInObject
  | '}' :: _ => .ok (none, c)
  | x :: _ =>
    if index = 0 then read c
    else if x = ',' then read c.advance
    else c.faultHere .noCommaInObject

/-! ## Values -/

/-- Reads a value that is no array or object. -/
def readScalar : Reading Json := fun c =>
  match c.rest with
  | [] => c.faultHere .endInValue
  | 'n' :: _ => do
    let ((), c) ← readWord "ull".toList c.advance
    return (null, c)
  | 't' :: _ => do
    let ((), c) ← readWord "rue".toList c.advance
    return (bool true, c)
  | 'f' :: _ => do
    let ((), c) ← readWord "alse".toList c.advance
    return (bool false, c)
  | '-' :: _ => do
    let (value, c) ← readNumber true c.advance
    return (number value, c)
  | '"' :: _ => do
    let (value, c) ← readStringTail c.advance
    return (string value, c)
  | x :: _ =>
    if x.isDigit then do
      let (value, c) ← readNumber false c
      return (number value, c)
    else c.faultHere .noValue

/-- Reads a value, with at most `depth` arrays and objects inside each other. -/
def read (depth : Nat) : Reading Json := fun c =>
  let c := c.skipSpace
  match c.rest, depth with
  | '[' :: _, 0 | '{' :: _, 0 => c.faultHere .tooDeep
  | '[' :: _, depth + 1 => do
    let (items, c) ← readItems (read depth) c.advance
    return (array items, c)
  | '{' :: _, depth + 1 => do
    let (fields, c) ← readFields (fun _ => read depth) c.advance
    return (ofEntries fields, c)
  | _, _ => readScalar c

/-- Passes over a value that is no array or object. -/
def skipScalar : Reading Unit := fun c =>
  match c.rest with
  | '-' :: _ => skipNumber c.advance
  | '"' :: _ => skipStringTail c.advance
  | x :: _ =>
    if x.isDigit then skipNumber c
    else do
      let (_, c) ← readScalar c
      return ((), c)
  | [] => c.faultHere .endInValue

/-- Passes over a value with at most `depth` arrays and objects inside each other. -/
def skipWithin (depth : Nat) : Reading Unit := fun c =>
  let c := c.skipSpace
  match c.rest, depth with
  | '[' :: _, depth + 1 => do
    let (_, c) ← collect (skipItem (skipWithin depth)) c.advance
    return ((), c.advance)
  | '{' :: _, depth + 1 => do
    let (_, c) ← collect (skipField (skipWithin depth)) c.advance
    return ((), c.advance)
  | '[' :: _, 0 | '{' :: _, 0 => c.faultHere .tooDeep
  | _, _ => skipScalar c

/-- Passes over a value. No value is nested more deeply than its text is long. -/
def skip : Reading Unit := fun c => skipWithin c.bound c

/-- The number of arrays and objects that a document may have inside each other. -/
def maxDepth : Nat := 127

/-- The value at the front of a text; what follows it is not looked at. -/
def ofText (text : String) : Except Fault Json := do
  let (value, _) ← read maxDepth (.start text)
  return value

end Json

end LintTypes
