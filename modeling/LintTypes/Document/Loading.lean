import LintTypes.Document.Options
import LintTypes.Document.Rules
import LintTypes.Error
import LintTypes.Files.Access

/-!
# Loading documents

Documents are read from files. Several rules documents make one set of rules, in the order of the
documents; no name may be in two of them.
-/

namespace LintTypes

variable {m : Type → Type} [Monad m] [FileAccess m]

/-- The text of the file at a path. -/
def loadText (path : String) : ExceptT Error m String :=
  ExceptT.mk do return (← FileAccess.read path).mapError (.io path)

namespace Options

/-- The options in the document at a path. -/
def load (path : String) : ExceptT Error m Options := do
  let text ← loadText path
  match ofText text with
  | .ok options => return options
  | .error fault => throw (.invalidConfig path fault)

end Options

namespace Rules

/-- The rules in the document at a path. -/
def load (path : String) : ExceptT Error m Rules := do
  let text ← loadText path
  match ofText text with
  | .ok rules => return rules
  | .error fault => throw (.invalidRules path fault)

/-- The rules with more rules after them, unless a name is there already. -/
def merge (rules : Rules) : Rules → Except Error Rules
  | [] => .ok rules
  | (name, rule) :: others =>
    if Entries.hasKey name rules then .error (.duplicateRule name)
    else merge (rules ++ [(name, rule)]) others

/-- Adds the rules of several documents, one after the other. -/
def loadOnto (rules : Rules) : List String → ExceptT Error m Rules
  | [] => return rules
  | path :: paths => do
    let merged ← ExceptT.mk (pure (rules.merge (← load path)))
    loadOnto merged paths

/-- The rules of several documents. -/
def loadAll (paths : List String) : ExceptT Error m Rules := loadOnto [] paths

end Rules

end LintTypes
