import LintTypes.Document.Record
import LintTypes.Rule

/-!
# Rules documents

A rules document maps the names of rules to their definitions, of which only the option schemas
under `meta` matter.
-/

namespace LintTypes.Rules

open Document

/-- The number of arrays and objects that a schema may have inside each other: those of the document
around it count as well. -/
def schemaDepth : Nat := Json.maxDepth - 3

/-- The form of the part of a rule that holds its schemas. -/
def metaForm : Form RuleSchema where
  expected := "struct RuleMeta"
  start := .sequence []
  fields := [.of "schema" (Json.read schemaDepth) fun value _ => .ofJson value]

/-- The form of a rule. -/
def ruleForm : Form Rule where
  expected := "struct Rule"
  start := {}
  fields := [{ Field.of "meta" (readRecord metaForm) fun value _ => ⟨value⟩ with required := true }]

/-- The rules in a document. -/
def ofText (text : String) : Except Fault Rules :=
  Document.ofText (readMap (readRecord ruleForm)) text

end LintTypes.Rules
