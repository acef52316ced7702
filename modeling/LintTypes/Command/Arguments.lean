import LintTypes.Command.Invocation
import LintTypes.Entries

/-!
# Arguments

How the arguments of a command line are read. An option is written `--name` or, if it has a letter,
`-n`; letters of options without values may stand together. A value is attached (`--name=value`,
`-nvalue`, `-n=value`) or follows as the next argument, and an option with several values takes
everything up to the next argument that starts with a hyphen. A lone hyphen is a value. After `--`
nothing may follow, since no command takes arguments without an option.

An argument is judged when its turn comes: a request for help that comes before a mistake is met.
-/

namespace LintTypes.Command

/-- An option. -/
inductive Opt where
  /-- Report on the progress. -/
  | verbose
  /-- Explain the usage. -/
  | help
  /-- Show the version. -/
  | version
  /-- The rules documents. -/
  | input
  /-- The options document. -/
  | config
  /-- End declarations with semicolons. -/
  | semi
  /-- Prefer double quotes. -/
  | doubleQuote
  /-- The folder to write to. -/
  | distFolder
  /-- Put before the names of rules. -/
  | rulesPrefix
  /-- The name of the rule. -/
  | name
  /-- The file to write to. -/
  | out
  /-- Show what was asked for and do nothing. -/
  | noOp
deriving DecidableEq, Repr

/-- What an option takes. -/
inductive Arity where
  /-- Nothing. -/
  | flag
  /-- One value. -/
  | one
  /-- At least one value, and the option may be repeated. -/
  | many
deriving DecidableEq, Repr

namespace Opt

/-- The name of the option. -/
def word : Opt → String
  | verbose => "verbose"
  | help => "help"
  | version => "version"
  | input => "input"
  | config => "config"
  | semi => "semi"
  | doubleQuote => "double-quote"
  | distFolder => "dist-folder"
  | rulesPrefix => "rules-prefix"
  | name => "name"
  | out => "out"
  | noOp => "no-op"

/-- The letter of the option, if it has one. -/
def letter? : Opt → Option Char
  | verbose => some 'v'
  | help => some 'h'
  | version => some 'V'
  | input => some 'i'
  | out => some 'o'
  | _ => none

/-- What the option takes. -/
def arity : Opt → Arity
  | input => .many
  | config | distFolder | rulesPrefix | name | out => .one
  | _ => .flag

/-- Whether the option takes a path. A path may not be empty; the paths of rules documents are not
checked, because they can be patterns. -/
def isPath : Opt → Bool
  | config | distFolder | out => true
  | _ => false

end Opt

/-- What is wrong with the usage. -/
inductive UsageError where
  /-- There is no such option. -/
  | unknownOption (written : String)
  /-- An argument that belongs to no option. -/
  | unexpectedArgument (argument : String)
  /-- An option comes without its value. -/
  | missingValue (option : Opt)
  /-- A path is empty. -/
  | emptyValue (option : Opt)
  /-- An option without values comes with one. -/
  | needlessValue (option : Opt)
  /-- An option comes again. -/
  | repeated (option : Opt)
  /-- An option that must be given is not. -/
  | missingOption (option : Opt)
  /-- There is no command. -/
  | missingCommand
deriving DecidableEq, Repr

namespace UsageError

/-- The words for the error. -/
def message : UsageError → String
  | unknownOption written => "unknown option '" ++ written ++ "'"
  | unexpectedArgument argument => "unexpected argument '" ++ argument ++ "'"
  | missingValue option => "a value is required for '--" ++ option.word ++ "'"
  | emptyValue option => "the value for '--" ++ option.word ++ "' is empty"
  | needlessValue option => "no value is allowed for '--" ++ option.word ++ "'"
  | repeated option => "'--" ++ option.word ++ "' is used more than once"
  | missingOption option => "'--" ++ option.word ++ "' is required"
  | missingCommand => "a command is required"

end UsageError

/-- Why the reading of arguments ends early. -/
inductive Stop where
  /-- Help is asked for. -/
  | help
  /-- The version is asked for. -/
  | version
  /-- The usage is wrong. -/
  | misuse (error : UsageError)
deriving DecidableEq, Repr

/-- What has been read of the arguments. -/
structure Given where
  /-- The options with their values. -/
  values : List (Opt × List String) := []
  /-- An option that takes the next argument as a value, and its values up to now. -/
  awaiting : Option (Opt × List String) := none
deriving DecidableEq, Repr

namespace Given

/-- The values of an option; nothing if it is not given. -/
def values? (given : Given) (option : Opt) : Option (List String) := given.values.lookup option

/-- Whether an option is given. -/
def has (given : Given) (option : Opt) : Bool := (given.values? option).isSome

/-- The first value of an option. -/
def value? (given : Given) (option : Opt) : Option String := (given.values? option).bind List.head?

/-- Adds an option with its values. -/
def add (given : Given) (option : Opt) (values : List String) : Except Stop Given :=
  if option.arity ≠ .flag ∧ values = [] then .error (.misuse (.missingValue option))
  else if option.isPath && values.contains "" then .error (.misuse (.emptyValue option))
  else
    match given.values? option with
    | none => .ok { given with values := Entries.insert option values given.values }
    | some earlier =>
      if option.arity = .many then
        .ok { given with values := Entries.insert option (earlier ++ values) given.values }
      else .error (.misuse (.repeated option))

/-- Adds the option that awaits values, if there is one. -/
def settle (given : Given) : Except Stop Given :=
  match given.awaiting with
  | none => .ok given
  | some (option, values) => { given with awaiting := none }.add option values

/-- Adds an option without values. -/
def addFlag (given : Given) (option : Opt) : Except Stop Given := do
  let given ← given.settle
  match option with
  | .help => .error .help
  | .version => .error .version
  | _ => given.add option []

/-- Adds an option with an attached value, or lets it await its values. -/
def addValued (given : Given) (option : Opt) (attached : Option String) : Except Stop Given := do
  let given ← given.settle
  match attached with
  | some value => given.add option [value]
  | none => return { given with awaiting := some (option, []) }

/-- Takes an argument as a value of the option that awaits it. -/
def addValue (given : Given) (argument : String) : Except Stop Given :=
  match given.awaiting with
  | none => .error (.misuse (.unexpectedArgument argument))
  | some (option, values) =>
    let given := { given with awaiting := some (option, values ++ [argument]) }
    if option.arity = .many then .ok given else given.settle

/-- Takes an option that is written by its name, with what stands behind `=`. -/
def addWord (given : Given) (known : List Opt) (word : String) (attached : Option String) :
    Except Stop Given :=
  match known.find? fun option => option.word = word with
  | none => .error (.misuse (.unknownOption ("--" ++ word)))
  | some option =>
    if option.arity ≠ .flag then given.addValued option attached
    else if attached.isSome then .error (.misuse (.needlessValue option))
    else given.addFlag option

/-- Takes options that are written by their letters. -/
def addLetters (given : Given) (known : List Opt) : List Char → Except Stop Given
  | [] => .ok given
  | letter :: rest => do
    match known.find? fun option => option.letter? = some letter with
    | none => .error (.misuse (.unknownOption (String.ofList ['-', letter])))
    | some option =>
      if option.arity = .flag then
        let given ← given.addFlag option
        given.addLetters known rest
      else
        match rest with
        | [] => given.addValued option none
        | '=' :: value => given.addValued option (some (String.ofList value))
        | value => given.addValued option (some (String.ofList value))

/-- The text before and behind the first `=`. -/
def splitValue (text : List Char) : String × Option String :=
  match text.dropWhile (· ≠ '=') with
  | [] => (String.ofList text, none)
  | _ :: value => (String.ofList (text.takeWhile (· ≠ '=')), some (String.ofList value))

/-- Takes an argument. -/
def addArgument (given : Given) (known : List Opt) (argument : String) : Except Stop Given :=
  match argument.toList with
  | '-' :: '-' :: text =>
    let (word, attached) := splitValue text
    given.addWord known word attached
  | '-' :: letter :: letters => given.addLetters known (letter :: letters)
  | _ => given.addValue argument

/-- Reads arguments up to a command: one of `commands`, and what follows it. -/
def read (known : List Opt) (commands : List String) (given : Given) :
    List String → Except Stop (Given × Option (String × List String))
  | [] => do return (← given.settle, none)
  | argument :: rest => do
    if commands.contains argument then return (← given.settle, some (argument, rest))
    else if argument = "--" then
      match rest with
      | [] => return (← given.settle, none)
      | next :: _ => .error (.misuse (.unexpectedArgument next))
    else read known commands (← given.addArgument known argument) rest

/-- The values of an option that must be given. -/
def require (given : Given) (option : Opt) : Except Stop (List String) :=
  match given.values? option with
  | some values => .ok values
  | none => .error (.misuse (.missingOption option))

end Given

/-! ## Commands -/

/-- The options before the command. -/
def outerOptions : List Opt := [.verbose, .help, .version]

/-- The options of every command. -/
def sharedOptions : List Opt := [.verbose, .help, .input, .config, .semi, .doubleQuote, .noOp]

/-- The settings that every command needs. -/
def RunInputs.ofGiven (given : Given) : Except Stop RunInputs := do
  return {
    input := ← given.require .input
    config := given.value? .config
    semi := given.has .semi
    doubleQuote := given.has .doubleQuote }

/-- The options of a single command, read from the arguments behind it. -/
def readCommand (options : List Opt) (arguments : List String) : Except Stop Given := do
  let (given, _) ← Given.read (sharedOptions ++ options) [] {} arguments
  return given

/-- The command to write the declarations of all rules, and whether it is to report. -/
def readGenerate (arguments : List String) : Except Stop (Bool × Task) := do
  let given ← readCommand [.distFolder, .rulesPrefix] arguments
  let settings : GenerateSettings := {
    inputs := ← RunInputs.ofGiven given
    distFolder := given.value? .distFolder
    rulesPrefix := given.value? .rulesPrefix
    noOp := given.has .noOp }
  return (given.has .verbose, .generate settings)

/-- The command to write the declarations of one rule, and whether it is to report. -/
def readRule (arguments : List String) : Except Stop (Bool × Task) := do
  let given ← readCommand [.name, .out] arguments
  let inputs ← RunInputs.ofGiven given
  let names ← given.require .name
  let settings : RuleSettings := {
    inputs
    name := names.headD ""
    out := given.value? .out
    noOp := given.has .noOp }
  return (given.has .verbose, .rule settings)

/-- The commands. -/
def commands : List String := ["generate", "rule", "help"]

/-- Asks for help about a command. -/
def readHelp {α : Type} : List String → Except Stop α
  | [] => .error .help
  | [topic] =>
    if commands.contains topic then .error .help else .error (.misuse (.unexpectedArgument topic))
  | topic :: other :: _ =>
    .error (.misuse (.unexpectedArgument (if commands.contains topic then other else topic)))

/-- What the arguments of a command line ask for. -/
def Invocation.ofArguments (arguments : List String) : Except Stop Invocation := do
  let (given, command) ← Given.read outerOptions commands {} arguments
  let (verbose, task) ← match command with
    | some ("generate", rest) => readGenerate rest
    | some ("rule", rest) => readRule rest
    | some (_, rest) => readHelp rest
    | none => .error (.misuse .missingCommand)
  return { verbose := given.has .verbose || verbose, task }

end LintTypes.Command
