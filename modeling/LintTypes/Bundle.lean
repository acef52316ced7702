import LintTypes.Document.Options
import LintTypes.Files.Access
import LintTypes.Names
import LintTypes.Rule

/-!
# Bundles

A bundle is everything that is written for a set of rules: for each rule a file with its
declarations, and an index that maps the names of the rules to their types.

```text
<dist>/rules/<file>.d.ts
<dist>/index.d.ts
```

`Bundle.ofRules` makes the bundle and touches no file; `Bundle.write` writes it, the index last. So
nothing is written for rules that cannot be declared, and the index never names a file that could
not be written.
-/

namespace LintTypes

/-- The file of a rule. -/
structure DeclarationFile where
  /-- The name of the rule. -/
  rule : String
  /-- The name of its type. -/
  identifier : String
  /-- The name of the file, without its ending. -/
  file : String
  /-- The declarations. -/
  source : String := ""
deriving DecidableEq, Repr

namespace DeclarationFile

/-- The file of a rule. -/
def ofRule (declarer : Declarer) (style : Style) (name : String) (rule : Rule) :
    Except Error DeclarationFile := do
  Rule.checkName name
  let identifier := Names.typeIdentifier name
  match rule.source declarer style identifier with
  | .ok source => return { rule := name, identifier, file := Names.fileName name, source }
  | .error cause => .error (.inRule name cause)

/-- The line of the index that brings in the type. -/
def importLine (file : DeclarationFile) : String :=
  "import type \x7b " ++ file.identifier ++ " \x7d from './rules/" ++ file.file ++ "'"

/-- The line of the index that maps the rule to its type. -/
def indexEntry (rulesPrefix : String) (file : DeclarationFile) : String :=
  "  '" ++ rulesPrefix ++ file.rule ++ "': " ++ file.identifier

end DeclarationFile

/-- The index of several files. -/
def indexSource (files : List DeclarationFile) (rulesPrefix : String) : String :=
  "\n".intercalate (files.map DeclarationFile.importLine)
    ++ "\n\nexport type RuleOptions = \x7b\n"
    ++ ",\n".intercalate (files.map (DeclarationFile.indexEntry rulesPrefix))
    ++ "\n\x7d"

/-- Everything that is written for a set of rules. -/
structure Bundle where
  /-- The files of the rules, in the order of the rules. -/
  files : List DeclarationFile
  /-- The index. -/
  index : String
deriving DecidableEq, Repr

/-- Where a bundle was written. -/
structure Placement where
  /-- The paths of the rules' files. -/
  ruleFiles : List String
  /-- The path of the index. -/
  indexFile : String
deriving DecidableEq, Repr

namespace Bundle

/-- The bundle of a set of rules. -/
def ofRules (declarer : Declarer) (options : Options) (rules : Rules) :
    Except Error Bundle := do
  let files ← rules.mapM fun (name, rule) => DeclarationFile.ofRule declarer options.style name rule
  return { files, index := indexSource files options.rulesPrefix }

/-! ## Writing -/

/-- The folder of the rules' files. -/
def rulesFolder (dist : String) : String := Path.join dist "rules"

/-- The path of a rule's file. -/
def rulePath (dist : String) (file : DeclarationFile) : String :=
  Path.join (rulesFolder dist) (file.file ++ ".d.ts")

/-- The path of the index. -/
def indexPath (dist : String) : String := Path.join dist "index.d.ts"

variable {m : Type → Type} [Monad m] [FileAccess m]

/-- Turns the failure of an action on the file at a path into an error. -/
def onPath {α : Type} (path : String) (action : m (Except FileError α)) : ExceptT Error m α :=
  ExceptT.mk do return (← action).mapError (.io path)

/-- Writes the file of a rule and gives its path. -/
def writeRule (dist : String) (file : DeclarationFile) : ExceptT Error m String := do
  let path := rulePath dist file
  onPath path (FileAccess.write path file.source)
  return path

/-- Writes the bundle to a folder, which is made if it is missing. -/
def write (bundle : Bundle) (dist : String) : ExceptT Error m Placement := do
  onPath (rulesFolder dist) (FileAccess.createDirectories (rulesFolder dist))
  let ruleFiles ← bundle.files.mapM (writeRule dist)
  let indexFile := indexPath dist
  onPath indexFile (FileAccess.write indexFile bundle.index)
  return { ruleFiles, indexFile }

end Bundle

variable {m : Type → Type} [Monad m] [FileAccess m]

/-- Makes the bundle of a set of rules and writes it to the folder that the options name. -/
def generate (declarer : Declarer) (options : Options) (rules : Rules) :
    ExceptT Error m Placement := do
  let bundle ← ExceptT.mk (pure (Bundle.ofRules declarer options rules))
  bundle.write options.distFolder

end LintTypes
