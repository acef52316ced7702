import LintTypes.Json.Basic

/-!
# Places inside a document

A place is reached by steps from the root: into a key of an object or an item of an array. A `Node`
is a value together with the steps that lead to it, so that two places with equal values stay apart.

A pointer spells the steps as text: each one is preceded by `/`, with `~1` for `/` and `~0` for `~`
inside keys; items are counted from zero without leading zeros.
-/

namespace LintTypes

/-- A step into a document. -/
inductive Step where
  /-- Into the value of a key. -/
  | field (key : String)
  /-- Into an item. -/
  | item (index : Nat)
deriving DecidableEq, Repr

/-- A value at its place in a document. -/
structure Node where
  /-- The steps from the root of the document to the value. -/
  path : List Step
  /-- The value. -/
  value : Json

namespace Node

/-- The root of a document. -/
def root (document : Json) : Node := ⟨[], document⟩

/-- The node below `node` that one step leads to, whose value is `value`. -/
def below (node : Node) (step : Step) (value : Json) : Node := ⟨node.path ++ [step], value⟩

/-- The value of a key. -/
def field? (node : Node) (key : String) : Option Node :=
  (node.value.get? key).map (node.below (.field key))

/-- The fields of an object. -/
def fields (node : Node) : List (String × Node) :=
  (node.value.fields?.getD []).map fun (key, value) => (key, node.below (.field key) value)

/-- The items of an array. -/
def items (node : Node) : List Node :=
  (node.value.items?.getD []).zipIdx.map fun (value, index) => node.below (.item index) value

/-- The string under `title`. -/
def title? (node : Node) : Option String := (node.value.get? "title").bind Json.string?

end Node

namespace Pointer

/-- The segments of a pointer, each with the escapes still in it; nothing if the pointer does not
start with a slash. -/
def segments? : List Char → Option (List (List Char))
  | '/' :: rest => some (go [] rest)
  | _ => none
where
  /-- The segments of a text, the first one continued after `segment`, which is kept backwards. -/
  go (segment : List Char) : List Char → List (List Char)
  | [] => [segment.reverse]
  | '/' :: rest => segment.reverse :: go [] rest
  | c :: rest => go (c :: segment) rest

/-- Writes `/` for each `~1`. -/
def unescapeSlash : List Char → List Char
  | '~' :: '1' :: rest => '/' :: unescapeSlash rest
  | c :: rest => c :: unescapeSlash rest
  | [] => []

/-- Writes `~` for each `~0`. -/
def unescapeTilde : List Char → List Char
  | '~' :: '0' :: rest => '~' :: unescapeTilde rest
  | c :: rest => c :: unescapeTilde rest
  | [] => []

/-- The key that a segment stands for. -/
def unescape (segment : List Char) : List Char := unescapeTilde (unescapeSlash segment)

/-- The index that a segment stands for: digits without a leading zero. -/
def index? (segment : List Char) : Option Nat :=
  match segment with
  | [] => none
  | ['0'] => some 0
  | '0' :: _ => none
  | digits =>
    if digits.all Char.isDigit then
      some (digits.foldl (fun value d => value * 10 + (d.toNat - '0'.toNat)) 0)
    else none

/-- The node that one segment leads to. -/
def enter? (node : Node) (segment : List Char) : Option Node :=
  let name := unescape segment
  match node.value with
  | .object _ => node.field? (String.ofList name)
  | .array _ => (index? name).bind fun index => node.items[index]?
  | _ => none

/-- The node that a pointer leads to. The empty pointer leads to the root. -/
def resolve? (document : Json) (pointer : List Char) : Option Node :=
  match pointer with
  | [] => some (.root document)
  | _ => do (← segments? pointer).foldlM enter? (.root document)

end Pointer

end LintTypes
