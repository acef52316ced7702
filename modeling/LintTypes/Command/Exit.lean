import LintTypes.Bundle
import LintTypes.Command.Arguments
import LintTypes.Document.Loading
import LintTypes.Files.Search

/-!
# Running commands

What a command does to the files, what it prints and which exit code it ends with: 0 if all went
well, 1 if not, and 2 if the command line makes no sense.

The options come from the options document and are changed by the command line. The rules come from
the rules documents, which are given by paths and by patterns; a pattern must stand for at least one
path.
-/

namespace LintTypes.Command

/-- The name and the version of the program. -/
def versionLine : String := "rule-typify 0.1.0"

/-- How the program is used. -/
def usage : String :=
  "Usage: rule-typify [--verbose] <COMMAND>\n\n"
    ++ "Commands:\n"
    ++ "  generate  compile every rule into a folder of declarations with an index\n"
    ++ "  rule      compile a single rule and print its declarations\n"
    ++ "  help      print this message\n\n"
    ++ "Options of both commands:\n"
    ++ "  -i, --input <INPUT>...         rules documents, as paths or patterns\n"
    ++ "      --config <CONFIG>          options document\n"
    ++ "      --semi                     end declarations with semicolons\n"
    ++ "      --double-quote             prefer double quotes\n"
    ++ "      --no-op                    print the settings and do nothing\n\n"
    ++ "Options of generate:\n"
    ++ "      --dist-folder <FOLDER>     output root\n"
    ++ "      --rules-prefix <PREFIX>    prepended to rule names in the index\n\n"
    ++ "Options of rule:\n"
    ++ "      --name <NAME>              rule name\n"
    ++ "  -o, --out <OUT>                output file\n"

/-- Why a command fails. -/
inductive Failure where
  /-- The rules cannot be read or declared, or their bundle cannot be written. -/
  | rules (cause : LintTypes.Error)
  /-- A pattern is wrong. -/
  | badPattern (pattern : String) (fault : PatternFault)
  /-- A pattern stands for no path. -/
  | noMatch (pattern : String)
  /-- There is no rule of that name. -/
  | unknownRule (name : String)
  /-- A rule cannot be declared. -/
  | rule (name : String) (cause : LintTypes.Error)
  /-- The folder of the output cannot be made. -/
  | creating (path : String) (cause : FileError)
  /-- The output cannot be written. -/
  | writing (path : String) (cause : FileError)

namespace Failure

/-- The messages of the failure and of what led to it, the outermost first. -/
def chain : Failure → List String
  | rules cause => cause.chain
  | badPattern pattern fault =>
    ["failed to resolve input file paths", "invalid glob pattern: " ++ pattern, fault.message]
  | noMatch pattern =>
    ["failed to resolve input file paths", "glob pattern matched no files: " ++ pattern]
  | unknownRule name => ["no rule named `" ++ name ++ "` in the inputs"]
  | rule name cause => ("rule `" ++ name ++ "`") :: cause.chain
  | creating path cause => ["creating " ++ path, cause.message]
  | writing path cause => ["writing " ++ path, cause.message]

/-- The failure in one line. -/
def message (failure : Failure) : String := ": ".intercalate failure.chain

end Failure

variable {m : Type → Type} [Monad m] [FileAccess m]

/-- A task that may fail. -/
abbrev Attempt (m : Type → Type) := ExceptT Failure m

/-- Attempts something that fails with an error of the rules. -/
def attempt {α : Type} (action : ExceptT LintTypes.Error m α) : Attempt m α :=
  ExceptT.mk do return (← action.run).mapError .rules

/-! ## Inputs -/

/-- The paths that an input stands for: those of a pattern, or the input itself. -/
def resolveInput (input : String) : Attempt m (List String) := do
  if !Pattern.isPattern input then return [input]
  match Pattern.ofText input with
  | .error fault => throw (.badPattern input fault)
  | .ok pattern =>
    match ← (pattern.paths : m (List String)) with
    | [] => throw (.noMatch input)
    | paths => return paths

namespace RunInputs

/-- The options of a run: those of the document, or else the default ones, changed by the flags. -/
def options (settings : RunInputs) : Attempt m Options := do
  let options ← match settings.config with
    | some path => attempt (Options.load path)
    | none => pure {}
  return { options with style := { options.style with
    semi := settings.semi || options.style.semi
    singleQuote := !settings.doubleQuote && options.style.singleQuote } }

/-- The rules of all inputs. -/
def rules (settings : RunInputs) : Attempt m Rules := do
  let paths ← settings.input.mapM resolveInput
  attempt (Rules.loadAll paths.flatten)

end RunInputs

/-! ## Commands -/

/-- What a command prints. -/
structure Printed where
  /-- On the standard output. -/
  out : String := ""
  /-- On the standard error output. -/
  err : String := ""
deriving DecidableEq, Repr

namespace GenerateSettings

/-- The options of a run: those of the inputs, changed by the settings. -/
def options (settings : GenerateSettings) : Attempt m Options := do
  let options ← settings.inputs.options
  return { options with
    distFolder := settings.distFolder.getD options.distFolder
    rulesPrefix := settings.rulesPrefix.getD options.rulesPrefix }

/-- Writes the declarations of all rules. -/
def run (settings : GenerateSettings) : Attempt m Printed := do
  let options ← settings.options
  let rules ← settings.inputs.rules
  let report ← attempt (generate .standard options rules)
  return { err := "wrote " ++ toString report.ruleFiles.length ++ " rule file(s) and "
    ++ report.indexFile ++ "\n" }

end GenerateSettings

/-- Writes a text to a file, in a folder that is made if it is missing. -/
def writeOut (path text : String) : Attempt m Unit := do
  if let some parent := Path.parent? path then
    ExceptT.mk do return (← FileAccess.createDirectories parent).mapError (.creating parent)
  ExceptT.mk do return (← FileAccess.write path text).mapError (.writing path)

namespace RuleSettings

/-- The declarations of the rule. -/
def source (settings : RuleSettings) : Attempt m String := do
  attempt (ExceptT.mk (pure (Rule.checkName settings.name)))
  let options ← settings.inputs.options
  let rules ← settings.inputs.rules
  match rules.lookup settings.name with
  | none => throw (.unknownRule settings.name)
  | some rule =>
    match rule.source .standard options.style (Names.typeIdentifier settings.name) with
    | .ok source => return source
    | .error cause => throw (.rule settings.name cause)

/-- Writes the declarations of the rule. -/
def run (settings : RuleSettings) : Attempt m Printed := do
  let source ← settings.source
  match settings.out with
  | none => return { out := source ++ "\n" }
  | some path =>
    writeOut path source
    return {}

end RuleSettings

namespace Task

/-- Runs a command. -/
def run : Task → Attempt m Printed
  | generate settings => settings.run
  | rule settings => settings.run

end Task

/-! ## Exits -/

/-- How the program ends. -/
structure Exit where
  /-- The exit code. -/
  code : Nat
  /-- What was printed. -/
  printed : Printed
deriving DecidableEq, Repr

namespace Exit

/-- The end after a command line of its own kind. -/
def ofStop : Stop → Exit
  | .help => ⟨0, { out := usage }⟩
  | .version => ⟨0, { out := versionLine ++ "\n" }⟩
  | .misuse error => ⟨2, { err := "error: " ++ error.message ++ "\n" }⟩

/-- The end of a task. -/
def ofResult : Except Failure Printed → Exit
  | .ok printed => ⟨0, printed⟩
  | .error failure => ⟨1, { err := "error: " ++ failure.message ++ "\n" }⟩

end Exit

/-- Runs what was asked for. -/
def Invocation.run (invocation : Invocation) : m Exit := do
  if invocation.task.noOp then
    return ⟨0, { err := invocation.outline.render 0 ++ "\n" }⟩
  return .ofResult (← invocation.task.run.run)

/-- Runs the program with the arguments of its command line. -/
def run (arguments : List String) : m Exit := do
  match Invocation.ofArguments arguments with
  | .ok invocation => invocation.run
  | .error stop => return .ofStop stop

end LintTypes.Command
