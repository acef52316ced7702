import LintTypes.Json.Pointer

/-!
# Rebasing references

The schemas of a sequence are written as if they stood in one array under `items`, so that their
references to themselves start with `#/items/0/`. Each of them is compiled alone, where the same
place is `#/`. Rebasing changes every such string of a schema, wherever it stands.

`Json.rebased` says what the result is. `Json.rebase` computes it by a walk with a stack of its own,
so that the nesting of a schema does not matter: the container that is being visited is detached
from the one around it, and put back when all that is in it has been visited.
-/

namespace LintTypes

namespace Rebase

/-- The start of a reference from a sequence to its first schema. -/
def sequencePrefix : List Char := "#/items/0/".toList

/-- A reference as it has to read inside the schema itself; any other text is left alone. -/
def rebaseChars (text : List Char) : List Char :=
  if sequencePrefix.isPrefixOf text then '#' :: '/' :: text.drop sequencePrefix.length else text

/-- `rebaseChars` on strings. -/
def rebaseText (text : String) : String := String.ofList (rebaseChars text.toList)

end Rebase

namespace Json

open Rebase

mutual

/-- A value with all its references rebased. -/
def rebased : Json → Json
  | string text => string (rebaseText text)
  | array items => array (rebasedItems items)
  | object fields => object (rebasedFields fields)
  | value => value

/-- Several values with all their references rebased. -/
def rebasedItems : List Json → List Json
  | [] => []
  | item :: items => item.rebased :: rebasedItems items

/-- Fields with all the references in their values rebased. -/
def rebasedFields : List (String × Json) → List (String × Json)
  | [] => []
  | (key, value) :: fields => (key, value.rebased) :: rebasedFields fields

end

end Json

namespace Rebase

/-- The steps into a value, in order. -/
def stepsInto : Json → List Step
  | .object fields => fields.map fun (key, _) => .field key
  | .array items => (List.range items.length).map .item
  | _ => []

/-- The value that a step leads to. -/
def valueAt? : Json → Step → Option Json
  | .object fields, .field key => fields.lookup key
  | .array items, .item index => items[index]?
  | _, _ => none

/-- The container with another value where a step leads to. -/
def putAt : Json → Step → Json → Json
  | .object fields, .field key, value =>
    .object (fields.map fun (k, v) => if k = key then (k, value) else (k, v))
  | .array items, .item index, value => .array (items.set index value)
  | container, _, _ => container

/-- What is left to do in a container. -/
inductive Task where
  /-- Visit the value that a step leads to. -/
  | visit (step : Step)
  /-- Leave the container: put it back to where a step into the one around it leads. -/
  | leave (step : Step)
deriving DecidableEq, Repr

/-- A walk: what is left to do, and the containers being visited, both the innermost first. -/
structure Walk where
  /-- What is left to do. -/
  tasks : List Task
  /-- The containers being visited. Each is missing in the next one. -/
  scopes : List Json

/-- The tasks of visiting all that is in a container, the last first. -/
def visits (container : Json) : List Task := ((stepsInto container).map Task.visit).reverse

/-- The walk after its first task. A task for a container or a value that is not there has no next
walk. -/
def Walk.next? (walk : Walk) : Option Walk :=
  match walk.tasks, walk.scopes with
  | .visit step :: tasks, scope :: scopes => do
    match ← valueAt? scope step with
    | .string text => return ⟨tasks, putAt scope step (.string (rebaseText text)) :: scopes⟩
    | .array items =>
      return ⟨visits (.array items) ++ .leave step :: tasks,
        .array items :: putAt scope step .null :: scopes⟩
    | .object fields =>
      return ⟨visits (.object fields) ++ .leave step :: tasks,
        .object fields :: putAt scope step .null :: scopes⟩
    | _ => return ⟨tasks, scope :: scopes⟩
  | .leave step :: tasks, child :: scope :: scopes => do
    let _ ← valueAt? scope step
    return ⟨tasks, putAt scope step child :: scopes⟩
  | _, _ => none

/-- The container that is left when all tasks are done, if that takes at most `steps` steps. -/
def Walk.finish? : Nat → Walk → Option Json
  | _, ⟨[], [root]⟩ => some root
  | steps + 1, walk => do finish? steps (← walk.next?)
  | 0, _ => none

end Rebase

/-- A value with all its references rebased, computed by a walk. -/
def Json.rebase (value : Json) : Json :=
  match value with
  | .string text => .string (Rebase.rebaseText text)
  | .array _ | .object _ =>
    ((Rebase.Walk.mk (Rebase.visits value) [value]).finish? (2 * value.size)).getD value
  | value => value

end LintTypes
