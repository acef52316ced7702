/-!
# Types and declarations

What a declaration file says: type expressions, object members, tuple slots and the declarations
that name them. Schemas are turned into these types, the layout writes them as text, and the reader
of declaration sources builds them from text.

`TypeExpr.unionOf` and `TypeExpr.intersectionOf` are the ways to combine types: they splice in a
member that already is of the same kind and never wrap fewer than two members.
-/

namespace LintTypes

/-- The types that are written as one reserved word. -/
inductive Keyword where
  /-- Any value, unchecked. -/
  | any
  /-- Any value, to be checked before use. -/
  | unknown
  /-- No value. -/
  | never
  /-- The value `null`. -/
  | null
  /-- The value `undefined`. -/
  | undefined
  /-- Both truth values. -/
  | boolean
  /-- All numbers. -/
  | number
  /-- All strings. -/
  | string
  /-- Everything but primitive values. -/
  | object
deriving DecidableEq, Repr, Inhabited

namespace Keyword

/-- The reserved word itself. -/
def text : Keyword → String
  | any => "any"
  | unknown => "unknown"
  | never => "never"
  | null => "null"
  | undefined => "undefined"
  | boolean => "boolean"
  | number => "number"
  | string => "string"
  | object => "object"

/-- All reserved type words. -/
def all : List Keyword :=
  [any, unknown, never, null, undefined, boolean, number, string, object]

/-- The keyword that is written as `word`. -/
def ofText? (word : String) : Option Keyword :=
  all.find? fun k => k.text = word

end Keyword

/-- The types with exactly one value. -/
inductive Literal where
  /-- One string. -/
  | string (value : String)
  /-- One number, kept as it is written. -/
  | number (text : String)
  /-- One truth value. -/
  | bool (value : Bool)
deriving DecidableEq, Repr, Inhabited

mutual

/-- A type expression. -/
inductive TypeExpr where
  /-- A reserved word. -/
  | keyword (word : Keyword)
  /-- The type of one literal value. -/
  | literal (value : Literal)
  /-- A declared type by its name, which may be dotted, and its arguments. -/
  | reference (name : String) (args : List TypeExpr)
  /-- Arrays of any length over one element type. -/
  | array (element : TypeExpr)
  /-- Arrays with a type per position. -/
  | tuple (slots : List Slot)
  /-- Objects with the listed members. -/
  | object (members : List Member)
  /-- Values of at least one of the types. -/
  | union (members : List TypeExpr)
  /-- Values of all the types. -/
  | intersection (members : List TypeExpr)
  /-- Type text that is passed on as it is. -/
  | verbatim (text : String)

/-- One position of a tuple. -/
structure Slot where
  /-- The type at this position; an array type when the slot is a rest slot. -/
  type : TypeExpr
  /-- The position may be missing: `T?`. -/
  isOptional : Bool
  /-- The slot stands for all further positions: `...T`. -/
  isRest : Bool

/-- What a member of an object type is found under. -/
inductive MemberKey where
  /-- One property name. -/
  | named (name : String)
  /-- Every key of a type: `[param: type]`. -/
  | index (param : String) (type : TypeExpr)

/-- A member of an object type. -/
structure Member where
  /-- What the member is found under. -/
  key : MemberKey
  /-- The type of its value. -/
  type : TypeExpr
  /-- The member may be missing. -/
  isOptional : Bool
  /-- The member may not be assigned. -/
  isReadonly : Bool
  /-- Text of the doc comment above the member. -/
  comment : Option String

end

instance : Inhabited TypeExpr := ⟨.keyword .unknown⟩

/-- A named type. -/
inductive Declaration where
  /-- `type name = type`. -/
  | typeAlias (name : String) (type : TypeExpr) (comment : Option String)
  /-- `interface name extends parents { members }`. -/
  | interface (name : String) (parents : List TypeExpr) (members : List Member)
      (comment : Option String)

/-- The declarations of one file, in order. -/
abbrev Declarations := List Declaration

namespace TypeExpr

/-- `any`. -/
@[match_pattern] abbrev any : TypeExpr := .keyword .any
/-- `unknown`. -/
@[match_pattern] abbrev unknown : TypeExpr := .keyword .unknown
/-- `never`. -/
@[match_pattern] abbrev never : TypeExpr := .keyword .never
/-- `null`. -/
@[match_pattern] abbrev null : TypeExpr := .keyword .null
/-- `boolean`. -/
@[match_pattern] abbrev boolean : TypeExpr := .keyword .boolean
/-- `number`. -/
@[match_pattern] abbrev number : TypeExpr := .keyword .number
/-- `string`. -/
@[match_pattern] abbrev string : TypeExpr := .keyword .string

/-- A declared type without arguments. -/
def named (name : String) : TypeExpr := .reference name []

/-- The types that a union is taken over when this type is one of its members. -/
def unionMembers : TypeExpr → List TypeExpr
  | .union members => members
  | type => [type]

/-- The types that an intersection is taken over when this type is one of its members. -/
def intersectionMembers : TypeExpr → List TypeExpr
  | .intersection members => members
  | type => [type]

/-- The union of `members`, with unions among them spliced in. No member makes `never`, and a
single one stands for itself. -/
def unionOf (members : List TypeExpr) : TypeExpr :=
  match members.flatMap unionMembers with
  | [] => never
  | [type] => type
  | types => .union types

/-- The intersection of `members`, with intersections among them spliced in. No member makes
`unknown`, and a single one stands for itself. -/
def intersectionOf (members : List TypeExpr) : TypeExpr :=
  match members.flatMap intersectionMembers with
  | [] => unknown
  | [type] => type
  | types => .intersection types

/-- Whether the type is a tuple. -/
def isTuple : TypeExpr → Bool
  | .tuple _ => true
  | _ => false

/-- Whether the type is written with an operator, so that it needs parentheses before `[]` or
`?`. -/
def hasOperator : TypeExpr → Bool
  | .union _ | .intersection _ => true
  | _ => false

end TypeExpr

namespace Slot

/-- A position that must be filled. -/
def required (type : TypeExpr) : Slot := ⟨type, false, false⟩

/-- A position that may be missing. -/
def optional (type : TypeExpr) : Slot := ⟨type, true, false⟩

/-- Any number of further positions, each of type `element`. -/
def rest (element : TypeExpr) : Slot := ⟨.array element, false, true⟩

end Slot

namespace Member

/-- A property with the doc comment `comment`. -/
def property (name : String) (type : TypeExpr) (isOptional : Bool)
    (comment : Option String) : Member :=
  ⟨.named name, type, isOptional, false, comment⟩

/-- All string keys: `[k: string]: type`. -/
def anyKey (type : TypeExpr) : Member :=
  ⟨.index "k" .string, type, false, false, none⟩

end Member

namespace Declaration

/-- The declared name. -/
def name : Declaration → String
  | typeAlias name _ _ => name
  | interface name _ _ _ => name

/-- Declare `type` under `name`: object types become interfaces, all others aliases. -/
def ofType (name : String) (type : TypeExpr) (comment : Option String) : Declaration :=
  match type with
  | .object members => .interface name [] members comment
  | type => .typeAlias name type comment

end Declaration

end LintTypes
