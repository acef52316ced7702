import LintTypes.Style
import LintTypes.Text.Identifier
import LintTypes.Types.NumberText
import LintTypes.Types.Quoted

/-!
# Layout of declarations

How types and declarations are written. A type goes on one line when it has a one-line form that
fits the print width; otherwise

* an object type with members takes one line per member,
* a tuple takes one line per slot,
* a union takes one line per member, each after a `|`, but an object type that is joined only with
  `null` and `undefined` stays on the line of its brace,
* all other types break inside their parts.

`TypeExpr.oneLine?` is the one-line form, `TypeExpr.layout` the text at a place in a file, and
`Declarations.render` the text of a file.
-/

namespace LintTypes

namespace Layout

/-- The width of one level of indentation. -/
def step : Nat := 2

/-- `width` blanks. -/
def pad (width : Nat) : String := String.ofList (List.replicate width ' ')

/-- The end of a line and the indentation of the next one. -/
def lineBreak (width : Nat) : String := "\n" ++ pad width

/-- Lines that are indented by `width` and separated by `separator`. -/
def indentedLines (width : Nat) (separator : String) (lines : List String) : String :=
  (separator ++ "\n").intercalate (lines.map (pad width ++ ·))

/-- Parentheses around `text` where `wanted`. -/
def parenthesized (wanted : Bool) (text : String) : String :=
  if wanted then "(" ++ text ++ ")" else text

/-- Whether a union keeps its object type on the line of the brace: it has one object type with
members, and besides only `null`, `undefined` and empty object types. -/
def wrapsInline (members : List TypeExpr) : Bool :=
  let isFilled : TypeExpr → Bool
    | .object (_ :: _) => true
    | _ => false
  let isHuggable : TypeExpr → Bool
    | .object _ | .keyword .null | .keyword .undefined => true
    | _ => false
  members.countP isFilled == 1 && members.all isHuggable

end Layout

/-! ## One-line forms -/

/-- A literal as it is written. -/
def Literal.text (style : Style) : Literal → String
  | .string value => StringLiteral.quoted style.singleQuote value
  | .number text => NumberText.normalize text
  | .bool value => if value then "true" else "false"

/-- The marks around the type of a slot. -/
def Slot.decorate (slot : Slot) (body : String) : String :=
  (if slot.isRest then "..." else "") ++ body ++ (if slot.isOptional then "?" else "")

mutual

/-- The one-line form of a type. A type that holds an object type with members has none. -/
def TypeExpr.oneLine? (style : Style) : TypeExpr → Option String
  | .keyword word => some word.text
  | .literal value => some (value.text style)
  | .reference name [] => some name
  | .reference name (arg :: args) => do
    let first ← arg.oneLine? style
    let others ← oneLines? style args
    return name ++ "<" ++ ", ".intercalate (first :: others) ++ ">"
  | .array element => do
    return Layout.parenthesized element.hasOperator (← element.oneLine? style) ++ "[]"
  | .tuple slots => do
    return "[" ++ ", ".intercalate (← slotsOneLine? style slots) ++ "]"
  | .object [] => some "\x7b\x7d"
  | .object (_ :: _) => none
  | .union members => do
    return " | ".intercalate (← oneLines? style members)
  | .intersection members => do
    return " & ".intercalate (← factorsOneLine? style members)
  | .verbatim text => some text

/-- The one-line forms of several types. -/
def oneLines? (style : Style) : List TypeExpr → Option (List String)
  | [] => some []
  | type :: types => do
    let first ← type.oneLine? style
    let others ← oneLines? style types
    return first :: others

/-- The one-line forms of the members of an intersection; unions among them are parenthesized. -/
def factorsOneLine? (style : Style) : List TypeExpr → Option (List String)
  | [] => some []
  | type :: types => do
    let first ← type.oneLine? style
    let others ← factorsOneLine? style types
    return Layout.parenthesized (type matches .union _) first :: others

/-- The one-line form of a slot. -/
def Slot.oneLine? (style : Style) : Slot → Option String
  | ⟨type, isOptional, isRest⟩ => do
    let body := Layout.parenthesized (isOptional && type.hasOperator) (← type.oneLine? style)
    return Slot.decorate ⟨type, isOptional, isRest⟩ body

/-- The one-line forms of several slots. -/
def slotsOneLine? (style : Style) : List Slot → Option (List String)
  | [] => some []
  | slot :: slots => do
    let first ← slot.oneLine? style
    let others ← slotsOneLine? style slots
    return first :: others

end

/-! ## Comments and heads -/

namespace Layout

/-- The lines of a text: each ends at a line feed, a carriage return right before it belongs to the
line end, and a line feed at the very end starts no further line. -/
def linesOf (text : List Char) : List (List Char) :=
  go [] text
where
  /-- The lines of `text`, the first one continued after `line`, which is kept backwards. -/
  go (line : List Char) : List Char → List (List Char)
  | [] => if line.isEmpty then [] else [line.reverse]
  | '\n' :: rest => (dropReturn line).reverse :: go [] rest
  | c :: rest => go (c :: line) rest
  /-- Drops a carriage return that ends the line. -/
  dropReturn : List Char → List Char
  | '\r' :: line => line
  | line => line

/-- Breaks up each end-of-comment mark by a backslash. -/
def guardCommentEnd : List Char → List Char
  | '*' :: '/' :: rest => '*' :: '\\' :: '/' :: guardCommentEnd rest
  | c :: rest => c :: guardCommentEnd rest
  | [] => []

/-- One line of a doc comment, without its indentation. -/
def commentLine (line : List Char) : String :=
  if line.isEmpty then " *\n" else " * " ++ String.ofList (guardCommentEnd line) ++ "\n"

/-- The doc comment above a declaration or member. -/
def commentBlock (comment : Option String) (indent : Nat) : String :=
  match comment with
  | none => ""
  | some text =>
    pad indent ++ "/**\n"
      ++ String.join ((linesOf text.toList).map fun line => pad indent ++ commentLine line)
      ++ pad indent ++ " */\n"

/-- A property name, quoted unless it is an identifier. -/
def propertyName (style : Style) (name : String) : String :=
  if isIdentifier name then name else StringLiteral.quoted style.singleQuote name

/-- What a member is found under. -/
def keyText (style : Style) : MemberKey → String
  | .named name => propertyName style name
  | .index param type => "[" ++ param ++ ": " ++ (type.oneLine? style).getD "" ++ "]"

/-- Everything of a member that comes before its type. -/
def memberHead (style : Style) (member : Member) (indent : Nat) : String :=
  pad indent ++ (if member.isReadonly then "readonly " else "") ++ keyText style member.key
    ++ (if member.isOptional then "?" else "") ++ ":"

/-- The mark that ends a member or an alias. -/
def terminator (style : Style) : String := if style.semi then ";" else ""

/-- Puts `body` after `head`, on its line unless it begins with a line break. -/
def putAfter (head body : String) : String :=
  head ++ (if body.toList.head? = some '\n' then "" else " ") ++ body

/-- Where a type starts, which decides how a broken union is laid out. -/
inductive Opening where
  /-- Right after `=` or `:`; a broken union moves to the next line. -/
  | afterToken
  /-- At the start of a line that is already indented. -/
  | lineStart
deriving DecidableEq, Repr

/-- The one-line form, if it fits: it starts in `column`, and `tail` more characters follow it. -/
def fitting? (style : Style) (type : TypeExpr) (column tail : Nat) : Option String :=
  (type.oneLine? style).filter fun text => column + text.length + tail ≤ style.printWidth

end Layout

/-! ## Types at a place -/

open Layout

mutual

/-- The text of a type that starts in `column` of a block indented by `indent`, with `tail` more
characters after it on its last line. -/
def TypeExpr.layout (style : Style) (indent column tail : Nat) (opening : Opening) :
    TypeExpr → String
  | .keyword word => word.text
  | .literal value => value.text style
  | .verbatim text => text
  | .reference name [] => name
  | .reference name (arg :: args) =>
    (fitting? style (.reference name (arg :: args)) column tail).getD
      (name ++ "<" ++ ", ".intercalate
        (arg.layout style indent column 0 .lineStart :: layouts style indent column args) ++ ">")
  | .array (.union members) =>
    (fitting? style (.array (.union members)) column tail).getD
      ("(\n" ++ indentedLines (indent + step) "" (bars style (indent + step) members)
        ++ lineBreak indent ++ ")[]")
  | .array (.intersection members) =>
    (fitting? style (.array (.intersection members)) column tail).getD
      ("(" ++ (TypeExpr.intersection members).layout style indent (column + 1) (tail + 3) .lineStart
        ++ ")[]")
  | .array element =>
    (fitting? style (.array element) column tail).getD
      (element.layout style indent column (tail + 2) opening ++ "[]")
  | .tuple slots =>
    (fitting? style (.tuple slots) column tail).getD
      ("[\n" ++ indentedLines (indent + step) "," (slotLayouts style (indent + step) slots)
        ++ lineBreak indent ++ "]")
  | .object members =>
    (fitting? style (.object members) column tail).getD (membersBlock style indent members)
  | .union members =>
    (fitting? style (.union members) column tail).getD
      (if wrapsInline members then " | ".intercalate (layouts style indent column members)
      else match opening with
        | .afterToken =>
          "\n" ++ indentedLines (indent + step) "" (bars style (indent + step) members)
        | .lineStart => (lineBreak indent).intercalate (bars style indent members))
  | .intersection members =>
    (fitting? style (.intersection members) column tail).getD
      (" & ".intercalate (factorLayouts style indent column members))

/-- The texts of types that follow each other, each laid out as if it started in `column`. -/
def layouts (style : Style) (indent column : Nat) : List TypeExpr → List String
  | [] => []
  | type :: types =>
    type.layout style indent column 0 .lineStart :: layouts style indent column types

/-- The texts of the members of an intersection; unions among them are parenthesized. -/
def factorLayouts (style : Style) (indent column : Nat) : List TypeExpr → List String
  | [] => []
  | .union members :: types =>
    ("(" ++ (TypeExpr.union members).layout style indent (column + 1) 1 .lineStart ++ ")")
      :: factorLayouts style indent column types
  | type :: types =>
    type.layout style indent column 0 .lineStart :: factorLayouts style indent column types

/-- The members of a broken union, each after its `|`. -/
def bars (style : Style) (indent : Nat) : List TypeExpr → List String
  | [] => []
  | type :: types =>
    ("| " ++ type.layout style (indent + 2) (indent + 2) 0 .lineStart) :: bars style indent types

/-- The slots of a broken tuple, one line each. -/
def slotLayouts (style : Style) (indent : Nat) : List Slot → List String
  | [] => []
  | slot :: slots => slot.layout style indent :: slotLayouts style indent slots

/-- One slot of a broken tuple. -/
def Slot.layout (style : Style) (indent : Nat) : Slot → String
  | ⟨type, isOptional, isRest⟩ =>
    let column := indent + (if isRest then 3 else 0)
    let body :=
      if isOptional && type.hasOperator then
        "(" ++ type.layout style indent (column + 1) 3 .lineStart ++ ")"
      else
        type.layout style indent column (if isOptional then 2 else 1) .lineStart
    Slot.decorate ⟨type, isOptional, isRest⟩ body

/-- Members between braces, one line each. -/
def membersBlock (style : Style) (indent : Nat) : List Member → String
  | [] => "\x7b\x7d"
  | member :: members =>
    "\x7b\n" ++ "\n".intercalate
      (member.layout style (indent + step) :: memberLayouts style (indent + step) members)
      ++ lineBreak indent ++ "\x7d"

/-- The texts of members. -/
def memberLayouts (style : Style) (indent : Nat) : List Member → List String
  | [] => []
  | member :: members => member.layout style indent :: memberLayouts style indent members

/-- One member with its doc comment. -/
def Member.layout (style : Style) (indent : Nat) : Member → String
  | ⟨key, type, isOptional, isReadonly, comment⟩ =>
    let head := memberHead style ⟨key, type, isOptional, isReadonly, comment⟩ indent
    commentBlock comment indent
      ++ putAfter head (type.layout style indent (head.utf8ByteSize + 1)
        (terminator style).utf8ByteSize .afterToken)
      ++ terminator style

end

/-! ## Declarations -/

namespace Declaration

/-- A declaration with its doc comment, without the line feed that ends it. -/
def layout (style : Style) : Declaration → String
  | typeAlias name type comment =>
    let head := "export type " ++ name ++ " ="
    commentBlock comment 0
      ++ putAfter head (type.layout style 0 (head.utf8ByteSize + 1)
        (terminator style).utf8ByteSize .afterToken)
      ++ terminator style
  | interface name parents members comment =>
    commentBlock comment 0 ++ "export interface " ++ name
      ++ (if parents.isEmpty then ""
        else " extends " ++ ", ".intercalate (layouts style 0 0 parents))
      ++ " " ++ membersBlock style 0 members

end Declaration

namespace Declarations

/-- The declarations one after the other, each ended by a line feed. -/
def body (style : Style) (declarations : Declarations) : String :=
  String.join (declarations.map fun declaration => declaration.layout style ++ "\n")

/-- The text of a file: the banner, a blank line after it, and the declarations. -/
def render (style : Style) (declarations : Declarations) : String :=
  (if style.bannerComment.isEmpty then "" else style.bannerComment ++ "\n\n")
    ++ body style declarations

end Declarations

end LintTypes
