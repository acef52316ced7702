import LintTypes.Text.DebugText
import LintTypes.Text.Outline

/-!
# What a command line asks for

There are two commands: one writes the declarations of all rules to a folder, the other one those of
a single rule to a file or to the standard output. `Invocation.outline` shows everything that was
asked for.
-/

namespace LintTypes.Command

/-- What every command needs. -/
structure RunInputs where
  /-- The rules documents, as paths and patterns. -/
  input : List String
  /-- The path of an options document. -/
  config : Option String := none
  /-- End declarations with semicolons. -/
  semi : Bool := false
  /-- Prefer double quotes. -/
  doubleQuote : Bool := false
deriving DecidableEq, Repr

/-- What is needed to write the declarations of all rules. -/
structure GenerateSettings where
  /-- What every command needs. -/
  inputs : RunInputs
  /-- The folder to write to, if it is not the one of the options. -/
  distFolder : Option String := none
  /-- Put before the names of rules, if it is not what the options say. -/
  rulesPrefix : Option String := none
  /-- Show what was asked for and do nothing. -/
  noOp : Bool := false
deriving DecidableEq, Repr

/-- What is needed to write the declarations of one rule. -/
structure RuleSettings where
  /-- What every command needs. -/
  inputs : RunInputs
  /-- The name of the rule. -/
  name : String
  /-- The file to write to, if it is not the standard output. -/
  out : Option String := none
  /-- Show what was asked for and do nothing. -/
  noOp : Bool := false
deriving DecidableEq, Repr

/-- A command. -/
inductive Task where
  /-- Write the declarations of all rules. -/
  | generate (settings : GenerateSettings)
  /-- Write the declarations of one rule. -/
  | rule (settings : RuleSettings)
deriving DecidableEq, Repr

/-- What a command line asks for. -/
structure Invocation where
  /-- Report on the progress. -/
  verbose : Bool := false
  /-- The command. -/
  task : Task
deriving DecidableEq, Repr

/-! ## Showing -/

/-- A text, shown. -/
def outlineText (value : String) : Outline := .text (DebugText.quoted value)

/-- A text that may be missing, shown. -/
def outlineText? (value : Option String) : Outline := .ofOption (value.map outlineText)

namespace RunInputs

/-- The settings, shown. -/
def outline (settings : RunInputs) : Outline :=
  .record "InputSettings" [
    ("input", .list (settings.input.map outlineText)),
    ("config", outlineText? settings.config),
    ("semi", .ofBool settings.semi),
    ("double_quote", .ofBool settings.doubleQuote)]

end RunInputs

namespace Task

/-- Whether there is nothing to do but to show what was asked for. -/
def noOp : Task → Bool
  | generate settings => settings.noOp
  | rule settings => settings.noOp

/-- The command, shown. -/
def outline : Task → Outline
  | generate settings =>
    .tagged "Generate" (.record "GenerateOut" [
      ("input_settings", settings.inputs.outline),
      ("dist_folder", outlineText? settings.distFolder),
      ("rules_prefix", outlineText? settings.rulesPrefix),
      ("no_op", .ofBool settings.noOp)])
  | rule settings =>
    .tagged "Rule" (.record "RuleOut" [
      ("input_settings", settings.inputs.outline),
      ("name", outlineText settings.name),
      ("out", outlineText? settings.out),
      ("no_op", .ofBool settings.noOp)])

end Task

/-- Everything that was asked for, shown. -/
def Invocation.outline (invocation : Invocation) : Outline :=
  .record "CommandLineInterface" [
    ("verbose", .ofBool invocation.verbose),
    ("cmd", invocation.task.outline)]

end LintTypes.Command
