import LintTypes.Json.Reader

/-!
# Reading documents with a known form

Where a document has a known form, each value is read as what the place asks for: a truth value, a
text, a count, a map, or a record. Faults of form and of syntax are thus found in reading order.

A record may be written as an object or as an array of its fields in order. An object may have
further fields, which are passed over, but none twice. A fault of a whole record, such as a field
that is missing, is reported where the record can be left at that moment.
-/

namespace LintTypes.Document

open Json Cursor

/-! ## Single values -/

/-- A value as messages speak of it. -/
def foundOf : Json → Found
  | .null => .null
  | .bool value => .bool value
  | .number (.integer n) => .integer n.value
  | .number (.real value) => .real value
  | .string value => .string value
  | .array _ => .sequence
  | .object _ => .map

/-- Fails because the value at this place is not what is `expected`. A value without parts is read
first, so its own faults come before. -/
def unexpected {α : Type} (expected : String) : Reading α := fun c =>
  match c.rest with
  | '[' :: _ => c.fault (.wrongKind .sequence expected)
  | '{' :: _ => c.fault (.wrongKind .map expected)
  | _ => do
    let (value, c) ← readScalar c
    c.fault (.wrongKind (foundOf value) expected)

/-- Reads a truth value. -/
def readBool : Reading Bool := fun c =>
  let c := c.skipSpace
  match c.rest with
  | 't' :: _ | 'f' :: _ => do
    match ← readScalar c with
    | (.bool value, c) => return (value, c)
    | (_, c) => c.fault .noValue
  | _ => unexpected "a boolean" c

/-- Reads a text; `expected` says what for. -/
def readText (expected : String) : Reading String := fun c =>
  let c := c.skipSpace
  match c.rest with
  | '"' :: _ => readStringTail c.advance
  | _ => unexpected expected c

/-- Reads a count. -/
def readCount : Reading Nat := fun c => do
  let c := c.skipSpace
  match c.rest with
  | x :: _ =>
    if x = '-' ∨ x.isDigit then
      match ← readScalar c with
      | (.number (.integer ⟨.ofNat count, _, _⟩), c) => return (count, c)
      | (.number (.integer n), c) => c.fault (.wrongValue (.integer n.value) "usize")
      | (value, c) => c.fault (.wrongKind (foundOf value) "usize")
    else unexpected "usize" c
  | [] => unexpected "usize" c

/-! ## Maps -/

/-- Reads an object that maps keys to values of one form. A repeated key keeps its first position
and its last value. -/
def readMap {α : Type} (value : Reading α) : Reading (List (String × α)) := fun c =>
  let c := c.skipSpace
  match c.rest with
  | '{' :: _ => do
    let (fields, c) ← readFields (fun _ => value) c.advance
    return (Entries.unique fields, c)
  | _ => unexpected "a map" c

/-! ## Records -/

/-- A field of a record. -/
structure Field (σ : Type) where
  /-- The key of the field. -/
  name : String
  /-- Reads the field into the record. -/
  read : σ → Reading σ
  /-- The field must be there. -/
  required : Bool := false

/-- The form of a record. -/
structure Form (σ : Type) where
  /-- The name of the form in messages. -/
  expected : String
  /-- The fields, in the order in which an array gives them. -/
  fields : List (Field σ)
  /-- The record of which no field has been read. -/
  start : σ

/-- A field whose value is read by `value` and put into the record by `put`. -/
def Field.of {σ α : Type} (name : String) (value : Reading α) (put : α → σ → σ) : Field σ where
  name := name
  read state c := do
    let (value, c) ← value c
    return (put value state, c)

/-- The place behind the closing brace, if that comes next. -/
def leaveObject (c : Cursor) : Cursor :=
  let c := c.skipSpace
  if c.rest.head? = some '}' then c.advance else c

/-- The place behind the closing bracket or a comma, if one of them comes next. -/
def leaveArray (c : Cursor) : Cursor :=
  let c := c.skipSpace
  match c.rest with
  | ']' :: _ => c.advance
  | ',' :: _ => c.advance.skipSpace
  | _ => c

/-- Reads the closing bracket. -/
def closeArray : Reading Unit := fun c =>
  let c := c.skipSpace
  match c.rest with
  | ']' :: _ => .ok ((), c.advance)
  | ',' :: _ =>
    let c := c.advance.skipSpace
    c.faultHere (if c.rest.head? = some ']' then .trailingComma else .trailingCharacters)
  | [] => c.faultHere .endInArray
  | _ => c.faultHere .trailingCharacters

/-- Repeats `step` on a state, counting from `index` on, until it yields nothing, but at most
`count` times. -/
def repeatUpTo {σ : Type} (step : Nat → σ → Reading (Option σ)) (count index : Nat) (state : σ) :
    Reading σ := fun c =>
  match count with
  | 0 => .ok (state, c)
  | count + 1 =>
    match step index state c with
    | .error fault => .error fault
    | .ok (none, after) => .ok (state, after)
    | .ok (some next, after) => repeatUpTo step count (index + 1) next after

/-- Repeats `step` on a state, counting from zero on, until it yields nothing. -/
def repeatOn {σ : Type} (step : Nat → σ → Reading (Option σ)) (state : σ) : Reading σ := fun c =>
  repeatUpTo step c.bound 0 state c

/-- A record in the making, and the keys that have been read. -/
abbrev Partial (σ : Type) := σ × List String

/-- Reads the next field of a record, or stops before the closing brace. -/
def readRecordField {σ : Type} (form : Form σ) (index : Nat) :
    Partial σ → Reading (Option (Partial σ)) := fun (state, seen) c => do
  let (key?, c) ← inside .unknown (readKey index) c
  match key? with
  | none => return (none, c)
  | some key =>
    match form.fields.find? fun field => field.name = key with
    | none =>
      let ((), c) ← readColon c
      let ((), c) ← inside (.key key) skip c
      return (some (state, seen), c)
    | some field =>
      if seen.contains key then (leaveObject c).fault (.duplicateField key)
      else
        let ((), c) ← readColon c
        let (state, c) ← inside (.key key) (field.read state) c
        return (some (state, key :: seen), c)

/-- Reads a record behind its brace. -/
def readRecordObject {σ : Type} (form : Form σ) : Reading σ := fun c => do
  let ((state, seen), c) ← repeatOn (readRecordField form) (form.start, []) c
  match form.fields.find? fun field => field.required && !seen.contains field.name with
  | some field => (leaveObject c).fault (.missingField field.name)
  | none => return (state, leaveObject c)

/-- Reads the given fields of a record from an array, the first of them at an index. -/
def readRecordItems {σ : Type} (form : Form σ) : List (Field σ) → Nat → σ → Reading σ
  | [], _, state, c => do
    let ((), c) ← closeArray c
    return (state, c)
  | field :: fields, index, state, c => do
    match ← readItem (field.read state) index c with
    | (some state, c) => readRecordItems form fields (index + 1) state c
    | (none, c) =>
      if field.required then
        let count := form.fields.length
        (leaveArray c).fault (.tooShort index (form.expected ++ " with " ++ toString count
          ++ (if count = 1 then " element" else " elements")))
      else readRecordItems form fields (index + 1) state c

/-- Reads a record. -/
def readRecord {σ : Type} (form : Form σ) : Reading σ := fun c =>
  let c := c.skipSpace
  match c.rest with
  | '{' :: _ => readRecordObject form c.advance
  | '[' :: _ => readRecordItems form form.fields 0 form.start c.advance
  | _ => unexpected form.expected c

/-- The value at the front of a text; what follows it is not looked at. -/
def ofText {α : Type} (value : Reading α) (text : String) : Except Fault α := do
  let (value, _) ← value (.start text)
  return value

end LintTypes.Document
