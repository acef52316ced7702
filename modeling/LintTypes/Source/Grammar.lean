import LintTypes.Source.Error
import LintTypes.Source.Token
import LintTypes.Types.Basic

/-!
# Reading declaration sources

The grammar of the declarations that a generated file holds: type aliases and interfaces over
unions, intersections, arrays, tuples, object types, literals, reserved words and references with
arguments. Comments are skipped.

The parts of a type are read by functions over `nested`, the parser for the types inside;
`Parser.typeExpr` ties the knot. A nested type always starts behind some text of the type around it,
so the bound of the outer text, less one, is a bound for it.

`TypeExpr.ofSource` and `Declarations.ofSource` read a whole text.
-/

namespace LintTypes

namespace Source.Parser

/-! ## Types -/

section Types

variable (nested : Parser TypeExpr)

/-- Reads the arguments of a reference. -/
def typeArguments : Parser (List TypeExpr) := do
  symbol "<"
  let args ← commit (sepBy1 nested (symbol ","))
  commit (within "`>`" (symbol ">"))
  return args

/-- The type that a name without arguments stands for if it is reserved. -/
def reservedType? (name : String) : Option TypeExpr :=
  if name = "true" then some (.literal (.bool true))
  else if name = "false" then some (.literal (.bool false))
  else (Keyword.ofText? name).map .keyword

/-- Reads a reserved type word or a reference. -/
def wordOrReference : Parser TypeExpr := do
  let name ← dottedName
  match reservedType? name with
  | some type => return type
  | none => return .reference name ((← optional (typeArguments nested)).getD [])

/-- Reads one slot of a tuple. -/
def slot : Parser Slot := do
  let rest ← optional (symbol "...")
  let type ← nested
  let mark ← optional (symbol "?")
  return ⟨type, mark.isSome, rest.isSome⟩

/-- Reads a tuple. -/
def tupleType : Parser TypeExpr := do
  symbol "["
  let slots ← sepBy (slot nested) (symbol ",")
  let _ ← optional (symbol ",")
  commit (within "`]`" (symbol "]"))
  return .tuple slots

/-- Reads the key of an index signature. -/
def indexSignature : Parser MemberKey := do
  symbol "["
  let param ← identifier
  symbol ":"
  let type ← commit nested
  commit (within "`]`" (symbol "]"))
  return .index param type

/-- Reads what a member is found under. -/
def memberKey : Parser MemberKey :=
  firstOf (do return .named (← numberLiteral))
    [indexSignature nested, do return .named (← identifier), do return .named (← stringLiteral)]

/-- Reads the mark of a member that may not be assigned. Before `?` or `:` the word is the name of a
property. -/
def readonlyMark : Parser Unit := do
  word "readonly"
  absent (firstOf (symbol ":") [symbol "?"])

/-- Reads one member of an object type. -/
def member : Parser Member := do
  let readonly ← optional readonlyMark
  let key ← memberKey nested
  let mark ← optional (symbol "?")
  commit (within "`:`" (symbol ":"))
  let type ← commit nested
  return ⟨key, type, mark.isSome, readonly.isSome, none⟩

/-- Reads the members of an object type with the braces around them. -/
def memberBlock : Parser (List Member) := do
  symbol "\x7b"
  let members ← many do
    let member ← member nested
    let _ ← optional (firstOf (symbol ",") [symbol ";"])
    return member
  commit (within "`\x7d`" (symbol "\x7d"))
  return members

/-- Reads a type in parentheses. -/
def parenthesizedType : Parser TypeExpr := do
  symbol "("
  let type ← commit nested
  commit (within "`)`" (symbol ")"))
  return type

/-- Reads a type without operators. -/
def primaryType : Parser TypeExpr :=
  within "type" <| firstOf (wordOrReference nested)
    [parenthesizedType nested,
      tupleType nested,
      do return .object (← memberBlock nested),
      do return .literal (.string (← stringLiteral)),
      do return .literal (.number (← numberLiteral))]

/-- Reads a type with any number of `[]` after it. -/
def arrayType : Parser TypeExpr := do
  let type ← primaryType nested
  let brackets ← many (do symbol "["; symbol "]")
  return brackets.foldl (fun type _ => .array type) type

/-- Reads types joined by `&`; one may also come first. -/
def intersectionType : Parser TypeExpr := do
  let _ ← optional (symbol "&")
  let first ← arrayType nested
  let others ← many (do symbol "&"; commit (arrayType nested))
  return if others.isEmpty then first else .intersection (first :: others)

/-- Reads types joined by `|`; one may also come first. -/
def unionType : Parser TypeExpr := do
  let _ ← optional (symbol "|")
  let first ← intersectionType nested
  let others ← many (do symbol "|"; commit (intersectionType nested))
  return if others.isEmpty then first else .union (first :: others)

end Types

/-- Reads a type. A nested type is shorter than the text around it, so its bound is less. -/
def typeExpr : Parser TypeExpr := fun bound text =>
  match bound with
  | 0 => .missed []
  | bound + 1 => unionType (fun _ inner => typeExpr bound inner) (bound + 1) text

/-! ## Declarations -/

/-- Reads one type parameter; nothing is kept of it. -/
def typeParameter : Parser Unit := do
  let _ ← identifier
  let _ ← optional (do word "extends"; typeExpr)
  let _ ← optional (do symbol "="; typeExpr)

/-- Reads the type parameters of a declaration; nothing is kept of them. -/
def typeParameters : Parser Unit := do
  symbol "<"
  let _ ← commit (sepBy1 typeParameter (symbol ","))
  commit (symbol ">")

/-- Reads a type alias. -/
def typeAlias : Parser Declaration := do
  word "type"
  let name ← commit (within "type name" identifier)
  let _ ← optional typeParameters
  commit (within "`=`" (symbol "="))
  let type ← commit (within "type" typeExpr)
  return .typeAlias name type none

/-- Reads the interfaces that an interface extends. -/
def parents : Parser (List TypeExpr) := do
  word "extends"
  commit (sepBy1 (arrayType typeExpr) (symbol ","))

/-- Reads an interface. -/
def interface : Parser Declaration := do
  word "interface"
  let name ← commit (within "interface name" identifier)
  let _ ← optional typeParameters
  let parents ← optional parents
  let members ← commit (within "interface body" (memberBlock typeExpr))
  return .interface name (parents.getD []) members none

/-- Reads a declaration. -/
def declaration : Parser Declaration := do
  let _ ← optional (word "export")
  let _ ← optional (word "declare")
  let declaration ← firstOf interface [typeAlias]
  let _ ← optional (symbol ";")
  return declaration

/-- Reads declarations up to the end of the text. -/
def declarations : Parser Declarations := do
  let declarations ← many declaration
  lexeme endOfText
  return declarations

/-- Reads a type up to the end of the text. -/
def wholeType : Parser TypeExpr := do
  let type ← typeExpr
  lexeme endOfText
  return type

/-- The value of a parser that takes up all of `source`. -/
def readAll {α : Type} (p : Parser α) (source : String) : Except SourceError α :=
  match p.run source.toList with
  | .done value _ => .ok value
  | .missed trace | .broken trace => .error ⟨source.toList, trace⟩

end Source.Parser

/-- Reads a text that holds one type. -/
def TypeExpr.ofSource (source : String) : Except Source.SourceError TypeExpr :=
  Source.Parser.wholeType.readAll source

/-- Reads a text that holds declarations. -/
def Declarations.ofSource (source : String) : Except Source.SourceError Declarations :=
  Source.Parser.declarations.readAll source

end LintTypes
