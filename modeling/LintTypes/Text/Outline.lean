/-!
# Outlines

Values written as a tree, one part to a line, each part indented by four columns and followed by a
comma.
-/

namespace LintTypes

/-- A value as it is shown. -/
inductive Outline where
  /-- A value without parts. -/
  | text (written : String)
  /-- A list of values. -/
  | list (items : List Outline)
  /-- A name and the value that it stands before. -/
  | tagged (name : String) (value : Outline)
  /-- A name and named values. -/
  | record (name : String) (fields : List (String × Outline))

namespace Outline

/-- A truth value. -/
def ofBool (value : Bool) : Outline := text (if value then "true" else "false")

/-- A value that may be missing. -/
def ofOption : Option Outline → Outline
  | none => text "None"
  | some value => tagged "Some" value

/-- The start of a line at a depth. -/
def margin (depth : Nat) : String := String.ofList (List.replicate (4 * depth) ' ')

mutual

/-- The outline, written at a depth. -/
def render (depth : Nat) : Outline → String
  | text written => written
  | list [] => "[]"
  | list items => "[\n" ++ renderItems (depth + 1) items ++ margin depth ++ "]"
  | tagged name value =>
    name ++ "(\n" ++ margin (depth + 1) ++ value.render (depth + 1) ++ ",\n" ++ margin depth ++ ")"
  | record name fields =>
    name ++ " \x7b\n" ++ renderFields (depth + 1) fields ++ margin depth ++ "\x7d"

/-- The items of a list, each on lines of its own. -/
def renderItems (depth : Nat) : List Outline → String
  | [] => ""
  | item :: items => margin depth ++ item.render depth ++ ",\n" ++ renderItems depth items

/-- Named values, each on lines of its own. -/
def renderFields (depth : Nat) : List (String × Outline) → String
  | [] => ""
  | (name, value) :: fields =>
    margin depth ++ name ++ ": " ++ value.render depth ++ ",\n" ++ renderFields depth fields

end

end Outline

end LintTypes
