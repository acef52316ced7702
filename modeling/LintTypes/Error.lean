import LintTypes.Files.Error
import LintTypes.Json.Fault
import LintTypes.Schema.Problem
import LintTypes.Source.Error

/-!
# Errors

All that can go wrong between the rules documents and the written declarations.
-/

namespace LintTypes

/-- Why the declarations of a schema cannot be judged. -/
inductive SourceProblem where
  /-- They cannot be read. -/
  | unreadable (error : Source.SourceError)
  /-- There is none. -/
  | noDeclaration
deriving DecidableEq, Repr

namespace SourceProblem

/-- The words for the problem. -/
def message : SourceProblem → String
  | unreadable error => error.message
  | noDeclaration => "source holds no type or interface declaration"

end SourceProblem

/-- Why there are no declarations for rules. -/
inductive Error where
  /-- A schema cannot be declared under the name `declaration`. -/
  | malformedSchema (declaration : String) (problem : SchemaProblem)
  /-- The declarations of a schema cannot be judged. -/
  | unparseableSource (problem : SourceProblem)
  /-- A file cannot be read or written. -/
  | io (path : String) (cause : FileError)
  /-- A rules document is at fault. -/
  | invalidRules (path : String) (fault : Fault)
  /-- An options document is at fault. -/
  | invalidConfig (path : String) (fault : Fault)
  /-- A rule may not have this name. -/
  | invalidRuleName (name : String)
  /-- Two documents define the same rule. -/
  | duplicateRule (name : String)
  /-- Something is wrong with one rule. -/
  | inRule (rule : String) (cause : Error)

namespace Error

/-- The words for the error. -/
def message : Error → String
  | malformedSchema declaration problem =>
    "cannot compile schema `" ++ declaration ++ "`: " ++ problem.message
  | unparseableSource problem => "generated source is not parseable: " ++ problem.message
  | io path cause => "filesystem error at " ++ path ++ ": " ++ cause.message
  | invalidRules path fault => "invalid rules document " ++ path ++ ": " ++ fault.message
  | invalidConfig path fault => "invalid configuration at " ++ path ++ ": " ++ fault.message
  | invalidRuleName name => "invalid rule name: " ++ DebugText.quoted name
  | duplicateRule name => "rule `" ++ name ++ "` is defined more than once"
  | inRule rule cause => "rule `" ++ rule ++ "`: " ++ cause.message

/-- The messages of the error and of the errors that led to it, the outermost first. -/
def chain : Error → List String
  | io path cause => [(io path cause).message, cause.message]
  | inRule rule cause => (inRule rule cause).message :: cause.chain
  | error => [error.message]

end Error

end LintTypes
