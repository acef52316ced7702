import LintTypes.Error
import LintTypes.Schema.Rebase
import LintTypes.Schema.Types
import LintTypes.Types.Layout
import LintTypes.Types.Shape

/-!
# Rules

A rule has one option schema or a sequence of them, one for each argument. `Rule.source` declares
the rule's options: first the declarations of each schema, the i-th under the name `Schema<i>`, and
then an alias that joins them. The alias is a tuple with an optional slot for each schema; only if
there is a single schema and it is declared as a union of tuples, which already is a choice of
argument lists, it stands for itself.

What turns a schema into the text of declarations is a parameter, `Declarer`;
`Declarer.standard` works out the types and lays them out.
-/

namespace LintTypes

/-- The options of a rule. -/
inductive RuleSchema where
  /-- One schema for each argument. -/
  | sequence (elements : List Json)
  /-- A single schema. -/
  | single (schema : Json)
deriving DecidableEq

namespace RuleSchema

/-- The options as they stand in a document: an array is a sequence. -/
def ofJson : Json → RuleSchema
  | .array elements => sequence elements
  | schema => single schema

/-- The options as they are written in a document. -/
def toJson : RuleSchema → Json
  | sequence elements => .array elements
  | single schema => schema

/-- The schemas, one for each argument. -/
def elements : RuleSchema → List Json
  | sequence elements => elements
  | single schema => [schema]

end RuleSchema

/-- A rule. -/
structure Rule where
  /-- Its options; none by default. -/
  schema : RuleSchema := .sequence []
deriving DecidableEq

/-- Rules by their names, in order. -/
abbrev Rules := List (String × Rule)

/-- Makes the text of the declarations of a schema, the first one under the given name. The text
ends with a line feed. -/
abbrev Declarer := Json → String → Style → Except Error String

/-- Works out the types of a schema and lays them out. -/
def Declarer.standard : Declarer := fun schema name style =>
  match Schema.declarations schema name style with
  | .ok declarations => .ok (declarations.render style)
  | .error problem => .error (.malformedSchema name problem)

/-- The shape of the first declaration of a source. -/
def firstShape (source : String) : Except Error DeclarationShape :=
  match Declarations.ofSource source with
  | .error error => .error (.unparseableSource (.unreadable error))
  | .ok [] => .error (.unparseableSource .noDeclaration)
  | .ok (declaration :: _) => .ok declaration.shape

namespace Rule

/-- The rule as it is written in a document. -/
def toJson (rule : Rule) : Json := .object [("meta", .object [("schema", rule.schema.toJson)])]

/-- The name that the schema at an index is declared under. -/
def elementName (index : Nat) : String := "Schema" ++ toString index

/-- Fails for names that no rule may have: the empty one. -/
def checkName (name : String) : Except Error Unit :=
  if name.isEmpty then .error (.invalidRuleName name) else .ok ()

/-- The type that joins the declarations of `count` schemas; `complete` says that the first one is a
choice of argument lists. -/
def joinedTypeText (count : Nat) (complete : Bool) : String :=
  if count = 1 ∧ complete then elementName 0
  else "[" ++ ", ".intercalate ((List.range count).map fun index => elementName index ++ "?") ++ "]"

/-- The texts of the declarations of the schemas, each rebased first. -/
def declareElements (declarer : Declarer) (style : Style) (elements : List Json) :
    Except Error (List String) :=
  elements.zipIdx.mapM fun (schema, index) => declarer schema.rebase (elementName index) style

/-- The declarations of a rule's options, the last one under `name` and without a line feed behind
it. -/
def source (declarer : Declarer) (style : Style) (rule : Rule) (name : String) :
    Except Error String := do
  match ← declareElements declarer style rule.schema.elements with
  | [] => return "export type " ++ name ++ " = []"
  | first :: others =>
    let shape ← firstShape first
    return String.join (first :: others) ++ "export type " ++ name ++ " = "
      ++ joinedTypeText (others.length + 1) (shape = .unionOfTuples)

end Rule

end LintTypes
