import LintTypes.Command.Arguments
import LintTypes.Proofs.FileTrees

/-!
# Command lines

Each task can be asked for by one line in which every option is written by its name with its value
attached (`Task.arguments`), and a line that asks for a task, however it is written, asks for one
that can be written in this way. Reading goes argument by argument; what it keeps is that no option
has an empty list of values and no path is empty (`Given.Sound`). For the way back a line is cut
into one part for each option, and reading a part sets the values of its option alone (`Part.Sets`).
-/

namespace LintTypes.Command

/-! ## Lines -/

/-- The option with a value attached. -/
def Opt.withValue (option : Opt) (value : String) : String := "--" ++ (option.word ++ "=" ++ value)

/-- The argument for an option with one value, if it has one. -/
def valueArguments (option : Opt) (value : Option String) : List String :=
  (value.map option.withValue).toList

/-- The argument for an option without values, if it is given. -/
def flagArguments (option : Opt) (given : Bool) : List String :=
  if given then ["--" ++ option.word] else []

/-- The arguments that both commands have in common. -/
def RunInputs.arguments (inputs : RunInputs) : List String :=
  inputs.input.map Opt.input.withValue ++ valueArguments .config inputs.config
    ++ flagArguments .semi inputs.semi ++ flagArguments .doubleQuote inputs.doubleQuote

/-- The arguments of a task. -/
def Task.arguments : Task → List String
  | .generate settings =>
    "generate" :: (settings.inputs.arguments ++ valueArguments .distFolder settings.distFolder
      ++ valueArguments .rulesPrefix settings.rulesPrefix ++ flagArguments .noOp settings.noOp)
  | .rule settings =>
    "rule" :: (settings.inputs.arguments ++ [Opt.name.withValue settings.name]
      ++ valueArguments .out settings.out ++ flagArguments .noOp settings.noOp)

/-- There is an input, and the path of the options document is not empty. -/
structure RunInputs.Sound (inputs : RunInputs) : Prop where
  input : inputs.input ≠ []
  config : inputs.config ≠ some ""

/-- A task that can be asked for by arguments: there is an input, and no path is empty. -/
def Task.Sound : Task → Prop
  | .generate settings => settings.inputs.Sound ∧ settings.distFolder ≠ some ""
  | .rule settings => settings.inputs.Sound ∧ settings.out ≠ some ""

/-! ## What is read -/

/-- Two steps succeed if the first one does, and the second one with its result. -/
theorem bind_eq_ok {ε α β : Type} {x : Except ε α} {f : α → Except ε β} {b : β}
    (h : x >>= f = .ok b) : ∃ a, x = .ok a ∧ f a = .ok b := by
  cases x with
  | error error => cases h
  | ok a => exact ⟨a, rfl, h⟩

/-- An option that takes values has some, and paths are not empty. -/
def Given.Sound (given : Given) : Prop :=
  ∀ option values, given.values? option = some values →
    (option.arity ≠ .flag → values ≠ []) ∧ (option.isPath = true → "" ∉ values)

namespace Given

variable {given given' : Given} {option : Opt} {values : List String} {known : List Opt}

/-- What is added to an option is checked, and then it is put behind the values that it has. -/
theorem add_ok (h : given.add option values = .ok given') :
    (option.arity ≠ .flag → values ≠ []) ∧ (option.isPath = true → "" ∉ values) ∧
      given'.awaiting = given.awaiting ∧
      ∀ other, given'.values? other =
        if other = option then some ((given.values? option).getD [] ++ values)
        else given.values? other := by
  unfold add at h
  split at h
  · cases h
  rename_i hnone
  split at h
  · cases h
  rename_i hempty
  have hvalues : option.arity ≠ .flag → values ≠ [] := fun harity hnil => hnone ⟨harity, hnil⟩
  have hpath : option.isPath = true → "" ∉ values := by
    intro hisPath hmem
    exact hempty (by simpa [hisPath] using hmem)
  refine ⟨hvalues, hpath, ?_⟩
  split at h
  · rename_i hvalue
    cases h
    refine ⟨rfl, fun other => ?_⟩
    rw [hvalue]
    exact Entries.lookup_insert ..
  · rename_i earlier hvalue
    split at h
    · cases h
      refine ⟨rfl, fun other => ?_⟩
      rw [hvalue]
      exact Entries.lookup_insert ..
    · cases h

/-- An option that is added has values, and no path among them is empty. -/
theorem Sound.add (hs : given.Sound) (h : given.add option values = .ok given') :
    given'.Sound := by
  obtain ⟨hvalues, hpath, -, hadded⟩ := add_ok h
  intro other found hfound
  rw [hadded] at hfound
  split_ifs at hfound with heq
  · cases hfound
    subst heq
    cases hearlier : given.values? other with
    | none => exact ⟨by simpa using hvalues, by simpa using hpath⟩
    | some earlier =>
      obtain ⟨-, hearlierPath⟩ := hs other earlier hearlier
      refine ⟨fun harity => ?_, fun hisPath hmem => ?_⟩
      · exact List.append_ne_nil_of_right_ne_nil _ (hvalues harity)
      · rcases List.mem_append.1 hmem with hmem | hmem
        · exact hearlierPath hisPath hmem
        · exact hpath hisPath hmem
  · exact hs other found hfound

/-- Settling an option that awaits values keeps what is given sound. -/
theorem Sound.settle (hs : given.Sound) (h : given.settle = .ok given') : given'.Sound := by
  unfold Given.settle at h
  split at h
  · cases h
    exact hs
  · have hcleared : Given.Sound { given with awaiting := none } := hs
    exact hcleared.add h

theorem Sound.addFlag (hs : given.Sound) (h : given.addFlag option = .ok given') :
    given'.Sound := by
  obtain ⟨settled, hsettle, h⟩ := bind_eq_ok h
  have hsettled := hs.settle hsettle
  split at h
  · cases h
  · cases h
  · exact hsettled.add h

theorem Sound.addValued (hs : given.Sound) {attached : Option String}
    (h : given.addValued option attached = .ok given') : given'.Sound := by
  obtain ⟨settled, hsettle, h⟩ := bind_eq_ok h
  have hsettled := hs.settle hsettle
  split at h
  · exact hsettled.add h
  · cases h
    exact hsettled

theorem Sound.addValue (hs : given.Sound) {argument : String}
    (h : given.addValue argument = .ok given') : given'.Sound := by
  unfold Given.addValue at h
  split at h
  · cases h
  · rename_i option values hawaiting
    dsimp only at h
    split at h
    · cases h
      exact hs
    · refine Sound.settle ?_ h
      exact hs

theorem Sound.addWord (hs : given.Sound) {word : String} {attached : Option String}
    (h : given.addWord known word attached = .ok given') : given'.Sound := by
  unfold Given.addWord at h
  split at h
  · cases h
  · split_ifs at h
    · exact hs.addValued h
    · exact hs.addFlag h

theorem Sound.addLetters (hs : given.Sound) {letters : List Char}
    (h : given.addLetters known letters = .ok given') : given'.Sound := by
  induction letters generalizing given with
  | nil =>
    cases h
    exact hs
  | cons letter rest ih =>
    unfold Given.addLetters at h
    split at h
    · cases h
    · split at h
      · obtain ⟨flagged, hflag, h⟩ := bind_eq_ok h
        exact ih (hs.addFlag hflag) h
      · split at h <;> exact hs.addValued h

/-- Whatever an argument is taken for, what is given stays sound. -/
theorem Sound.addArgument (hs : given.Sound) {argument : String}
    (h : given.addArgument known argument = .ok given') : given'.Sound := by
  unfold Given.addArgument at h
  split at h
  · exact hs.addWord h
  · exact hs.addLetters h
  · exact hs.addValue h

/-- Reading keeps what is given sound, argument by argument. -/
theorem Sound.read (hs : given.Sound) {commands arguments : List String}
    {command : Option (String × List String)}
    (h : Given.read known commands given arguments = .ok (given', command)) : given'.Sound := by
  induction arguments generalizing given with
  | nil =>
    obtain ⟨settled, hsettle, h⟩ := bind_eq_ok h
    cases h
    exact hs.settle hsettle
  | cons argument rest ih =>
    unfold Given.read at h
    split at h
    · obtain ⟨settled, hsettle, h⟩ := bind_eq_ok h
      cases h
      exact hs.settle hsettle
    · split at h
      · split at h
        · obtain ⟨settled, hsettle, h⟩ := bind_eq_ok h
          cases h
          exact hs.settle hsettle
        · cases h
      · obtain ⟨added, hadd, h⟩ := bind_eq_ok h
        exact ih (hs.addArgument hadd) h

theorem Sound.value? (hs : given.Sound) (hpath : option.isPath = true) :
    given.value? option ≠ some "" := by
  intro hvalue
  obtain ⟨values, hvalues, hhead⟩ := Option.bind_eq_some_iff.1 hvalue
  exact (hs option values hvalues).2 hpath (List.mem_of_mem_head? hhead)

end Given

/-- What a command line gives is sound. -/
theorem sound_readCommand {options : List Opt} {arguments : List String} {given : Given}
    (h : readCommand options arguments = .ok given) : given.Sound := by
  obtain ⟨⟨read, command⟩, hread, h⟩ := bind_eq_ok h
  cases h
  have hempty : Given.Sound {} := nofun
  exact hempty.read hread

/-- Inputs that are taken from sound ones have no empty path. -/
theorem RunInputs.sound_ofGiven {given : Given} {inputs : RunInputs} (hs : given.Sound)
    (h : RunInputs.ofGiven given = .ok inputs) : inputs.Sound := by
  obtain ⟨input, hinput, h⟩ := bind_eq_ok h
  cases h
  refine ⟨?_, hs.value? rfl⟩
  unfold Given.require at hinput
  split at hinput
  · rename_i values hvalues
    cases hinput
    exact (hs .input input hvalues).1 (by decide)
  · cases hinput

/-- A line asks for a task that can be written by its arguments. -/
theorem Task.sound_ofArguments {line : List String} {invocation : Invocation}
    (h : Invocation.ofArguments line = .ok invocation) : invocation.task.Sound := by
  obtain ⟨⟨given, command⟩, -, h⟩ := bind_eq_ok h
  dsimp only at h
  split at h
  · obtain ⟨⟨verbose, task⟩, htask, h⟩ := bind_eq_ok h
    cases h
    obtain ⟨given, hgiven, htask⟩ := bind_eq_ok htask
    obtain ⟨inputs, hinputs, htask⟩ := bind_eq_ok htask
    cases htask
    have hs := sound_readCommand hgiven
    exact ⟨RunInputs.sound_ofGiven hs hinputs, hs.value? rfl⟩
  · obtain ⟨⟨verbose, task⟩, htask, h⟩ := bind_eq_ok h
    cases h
    obtain ⟨given, hgiven, htask⟩ := bind_eq_ok htask
    obtain ⟨inputs, hinputs, htask⟩ := bind_eq_ok htask
    obtain ⟨names, -, htask⟩ := bind_eq_ok htask
    cases htask
    have hs := sound_readCommand hgiven
    exact ⟨RunInputs.sound_ofGiven hs hinputs, hs.value? rfl⟩
  · obtain ⟨task, htask, -⟩ := bind_eq_ok h
    unfold readHelp at htask
    split at htask
    · cases htask
    · split at htask <;> cases htask
    · cases htask
  · cases h

/-! ## Reading what is written -/

namespace Opt

/-- Different options have different words. -/
theorem word_injective : Function.Injective word := by
  have hfind : ∀ option : Opt,
      [verbose, help, version, input, config, semi, doubleQuote, distFolder, rulesPrefix, name, out,
        noOp].find? (fun other => other.word = option.word) = some option := by
    intro option
    cases option <;> rfl
  intro option other heq
  have hother := hfind other
  rw [← heq, hfind option] at hother
  exact Option.some.inj hother

theorem find?_word {option : Opt} {known : List Opt} (h : option ∈ known) :
    known.find? (fun other => other.word = option.word) = some option := by
  have hsome : (known.find? fun other => other.word = option.word).isSome :=
    List.find?_isSome.2 ⟨option, h, by simp⟩
  obtain ⟨found, hfound⟩ := Option.isSome_iff_exists.1 hsome
  have hword : found.word = option.word := by simpa using List.find?_some hfound
  rw [hfound, word_injective hword]

/-- No word of an option has an `=`, so a value is cut off at the right place. -/
theorem equals_not_mem_word (option : Opt) : '=' ∉ option.word.toList := by
  cases option <;> decide

end Opt

namespace Given

/-- A value is what stands behind the first `=`. -/
theorem splitValue_value {word : List Char} (h : '=' ∉ word) (value : List Char) :
    splitValue (word ++ '=' :: value) = (String.ofList word, some (String.ofList value)) := by
  have hall : ∀ c ∈ word, decide (c ≠ '=') = true := by
    intro c hc
    simpa using fun heq : c = '=' => h (heq ▸ hc)
  unfold splitValue
  rw [List.dropWhile_append_of_pos hall, List.takeWhile_append_of_pos hall]
  simp

theorem splitValue_plain {word : List Char} (h : '=' ∉ word) :
    splitValue word = (String.ofList word, none) := by
  have hall : ∀ c ∈ word, decide (c ≠ '=') = true := by
    intro c hc
    simpa using fun heq : c = '=' => h (heq ▸ hc)
  have hnone : word.dropWhile (fun c => decide (c ≠ '=')) = [] := by
    rw [← List.append_nil word, List.dropWhile_append_of_pos hall]
    rfl
  unfold splitValue
  rw [hnone]

variable {given : Given} {option : Opt} {values : List String} {known : List Opt}

/-- An option can be added if its values suit it and it was not there, or may be there several
times. -/
theorem exists_add (hvalues : option.arity ≠ .flag → values ≠ [])
    (hpath : option.isPath = true → "" ∉ values)
    (hnew : given.values? option = none ∨ option.arity = .many) :
    ∃ given', given.add option values = .ok given' := by
  have hsome : ¬ (option.arity ≠ .flag ∧ values = []) := fun ⟨harity, hnil⟩ => hvalues harity hnil
  have hplain : ¬ (option.isPath && values.contains "") = true := by
    intro h
    simp only [Bool.and_eq_true, List.contains_iff_mem] at h
    exact hpath h.1 h.2
  unfold add
  rw [if_neg hsome, if_neg hplain]
  split
  · exact ⟨_, rfl⟩
  · rename_i earlier hearlier
    have hmany : option.arity = .many := by
      rcases hnew with hnone | hmany
      · rw [hearlier] at hnone
        cases hnone
      · exact hmany
    rw [if_pos hmany]
    exact ⟨_, rfl⟩

/-- An argument that starts with two hyphens is taken as a word. -/
theorem read_word (given : Given) {text : String} (hne : text ≠ "") (rest : List String) :
    Given.read known [] given (("--" ++ text) :: rest) = (do
      let given ← given.addWord known (splitValue text.toList).1 (splitValue text.toList).2
      Given.read known [] given rest) := by
  have hdashes : ¬ "--" ++ text = "--" := by
    intro heq
    have hlist := congrArg String.toList heq
    exact hne (by simpa using hlist)
  have htext : ("--" ++ text).toList = '-' :: '-' :: text.toList := by simp
  conv => lhs; unfold Given.read
  rw [List.contains_nil, if_neg Bool.false_ne_true, if_neg hdashes, addArgument, htext]
  rfl

/-- The options that `given'` has besides those of `given`. -/
def Adds (given given' : Given) (option : Opt) (values : List String) : Prop :=
  given'.awaiting = none ∧ ∀ other, given'.values? other =
    if other = option then some ((given.values? option).getD [] ++ values) else given.values? other

/-- An option with an attached value is added, and reading goes on. -/
theorem read_withValue (hknown : option ∈ known) (harity : option.arity ≠ .flag) {value : String}
    (hpath : option.isPath = true → value ≠ "") (hawaiting : given.awaiting = none)
    (hnew : given.values? option = none ∨ option.arity = .many) (rest : List String) :
    ∃ given', Adds given given' option [value] ∧
      Given.read known [] given (option.withValue value :: rest) =
        Given.read known [] given' rest := by
  have hvalue : option.isPath = true → "" ∉ [value] := by
    intro hisPath hmem
    exact hpath hisPath (List.mem_singleton.1 hmem).symm
  obtain ⟨given', hadd⟩ := exists_add (fun _ => List.cons_ne_nil value []) hvalue hnew
  obtain ⟨-, -, hsettled, hvalues⟩ := add_ok hadd
  refine ⟨given', ⟨hsettled.trans hawaiting, hvalues⟩, ?_⟩
  have hne : option.word ++ "=" ++ value ≠ "" := by
    intro heq
    have hlist := congrArg String.toList heq
    simp at hlist
  have hsplit : splitValue (option.word ++ "=" ++ value).toList = (option.word, some value) := by
    have htext : (option.word ++ "=" ++ value).toList =
        option.word.toList ++ '=' :: value.toList := by simp
    rw [htext, splitValue_value option.equals_not_mem_word]
    simp
  have hwritten : option.withValue value = "--" ++ (option.word ++ "=" ++ value) := rfl
  rw [hwritten, read_word given hne, hsplit, addWord, Opt.find?_word hknown]
  dsimp only
  rw [if_pos harity, addValued, settle, hawaiting]
  show (given.add option [value] >>= _) = _
  rw [hadd]
  rfl

/-- A flag is added without values, and reading goes on. -/
theorem read_flag (hknown : option ∈ known) (harity : option.arity = .flag)
    (hhelp : option ≠ .help) (hversion : option ≠ .version) (hawaiting : given.awaiting = none)
    (hnew : given.values? option = none) (rest : List String) :
    ∃ given', Adds given given' option [] ∧
      Given.read known [] given (("--" ++ option.word) :: rest) =
        Given.read known [] given' rest := by
  have hvalue : option.isPath = true → "" ∉ ([] : List String) := fun _ => List.not_mem_nil
  obtain ⟨given', hadd⟩ := exists_add (fun hne => absurd harity hne) hvalue (.inl hnew)
  obtain ⟨-, -, hsettled, hvalues⟩ := add_ok hadd
  refine ⟨given', ⟨hsettled.trans hawaiting, hvalues⟩, ?_⟩
  have hne : option.word ≠ "" := by
    cases option <;> decide
  have hsplit : splitValue option.word.toList = (option.word, none) := by
    rw [splitValue_plain option.equals_not_mem_word]
    simp
  have hflag : given.addFlag option = given.add option [] := by
    rw [addFlag, settle, hawaiting]
    cases option <;> first | rfl | exact absurd rfl hhelp | exact absurd rfl hversion
  rw [read_word given hne, hsplit, addWord, Opt.find?_word hknown]
  dsimp only
  rw [if_neg (not_not_intro harity), Option.isSome_none, if_neg Bool.false_ne_true, hflag, hadd]
  rfl

end Given

/-! ## Parts of a line -/

/-- The part of a line that is about one option. -/
structure Part where
  /-- The option. -/
  option : Opt
  /-- Its values, if it is given. -/
  values : Option (List String)
  /-- The arguments. -/
  arguments : List String

namespace Part

/-- The part for an option with one value, if it has one. -/
def value (option : Opt) (value : Option String) : Part :=
  ⟨option, value.map fun text => [text], valueArguments option value⟩

/-- The part for an option with several values. -/
def many (option : Opt) (values : List String) : Part :=
  ⟨option, some values, values.map option.withValue⟩

/-- The part for an option without values. -/
def flag (option : Opt) (given : Bool) : Part :=
  ⟨option, if given then some [] else none, flagArguments option given⟩

/-- Reading the part sets its option, if it was not given yet, and nothing else. -/
def Sets (known : List Opt) (part : Part) : Prop :=
  ∀ given rest, given.awaiting = none → given.values? part.option = none →
    ∃ given' : Given, given'.awaiting = none ∧
      (∀ other, given'.values? other =
        if other = part.option then part.values else given.values? other) ∧
      Given.read known [] given (part.arguments ++ rest) = Given.read known [] given' rest

variable {known : List Opt} {option : Opt} {parts : List Part} {given : Given}

theorem sets_nothing (known : List Opt) (option : Opt) : Sets known ⟨option, none, []⟩ := by
  intro given rest hawaiting hnew
  refine ⟨given, hawaiting, fun other => ?_, rfl⟩
  split_ifs with heq
  · rw [heq, hnew]
  · rfl

/-- A part with a value sets its option. -/
theorem sets_value {text : Option String} (hknown : option ∈ known) (harity : option.arity ≠ .flag)
    (hpath : option.isPath = true → text ≠ some "") : Sets known (value option text) := by
  cases text with
  | none => exact sets_nothing known option
  | some text =>
    intro given rest hawaiting hnew
    obtain ⟨given', ⟨hsettled, hvalues⟩, hread⟩ := Given.read_withValue hknown harity
      (fun hisPath heq => hpath hisPath (congrArg some heq)) hawaiting (.inl hnew) rest
    have hnew : given.values? option = none := hnew
    rw [hnew] at hvalues
    exact ⟨given', hsettled, hvalues, hread⟩

/-- A flag that is given sets its option without values. -/
theorem sets_flag {given : Bool} (hknown : option ∈ known) (harity : option.arity = .flag)
    (hhelp : option ≠ .help) (hversion : option ≠ .version) : Sets known (flag option given) := by
  cases given with
  | false => exact sets_nothing known option
  | true =>
    intro given rest hawaiting hnew
    obtain ⟨given', ⟨hsettled, hvalues⟩, hread⟩ :=
      Given.read_flag hknown harity hhelp hversion hawaiting hnew rest
    have hnew : given.values? option = none := hnew
    rw [hnew] at hvalues
    exact ⟨given', hsettled, hvalues, hread⟩

/-- An option with many values may be written again for each of them. -/
theorem sets_many {values : List String} (hknown : option ∈ known) (harity : option.arity = .many)
    (hpath : option.isPath = false) (hne : values ≠ []) : Sets known (many option values) := by
  have hvalued : option.arity ≠ .flag := by
    rw [harity]
    decide
  have hplain : ∀ value, option.isPath = true → value ≠ "" := by
    intro value hisPath
    rw [hpath] at hisPath
    cases hisPath
  intro given rest hawaiting hnew
  -- Behind the first value the option is given already, so the induction is for any values before.
  have hall : ∀ (others : List String) (first : String) (given : Given), given.awaiting = none →
      ∃ given', Given.Adds given given' option (first :: others) ∧
        Given.read known [] given ((first :: others).map option.withValue ++ rest) =
          Given.read known [] given' rest := by
    intro others
    induction others with
    | nil =>
      intro first given hawaiting
      exact Given.read_withValue hknown hvalued (hplain first) hawaiting (.inr harity) rest
    | cons second others ih =>
      intro first given hawaiting
      obtain ⟨between, ⟨hsettled, hvalues⟩, hread⟩ := Given.read_withValue hknown hvalued
        (hplain first) hawaiting (.inr harity) ((second :: others).map option.withValue ++ rest)
      obtain ⟨given', ⟨hsettled', hvalues'⟩, hread'⟩ := ih second between hsettled
      refine ⟨given', ⟨hsettled', fun other => ?_⟩, hread.trans hread'⟩
      rw [hvalues', hvalues, hvalues, if_pos rfl]
      split_ifs <;> simp
  obtain ⟨first, others, rfl⟩ := List.exists_cons_of_ne_nil hne
  obtain ⟨given', ⟨hsettled, hvalues⟩, hread⟩ := hall others first given hawaiting
  have hnew : given.values? option = none := hnew
  rw [hnew] at hvalues
  exact ⟨given', hsettled, hvalues, hread⟩

/-- Parts about different options set them all. -/
theorem read_parts (hnodup : (parts.map Part.option).Nodup)
    (hparts : ∀ part ∈ parts, part.Sets known)
    (hawaiting : given.awaiting = none) (hnew : ∀ part ∈ parts, given.values? part.option = none) :
    ∃ given', Given.read known [] given (parts.flatMap Part.arguments) = .ok (given', none) ∧
      (∀ part ∈ parts, given'.values? part.option = part.values) ∧
      ∀ option ∉ parts.map Part.option, given'.values? option = given.values? option := by
  induction parts generalizing given with
  | nil =>
    refine ⟨given, ?_, List.forall_mem_nil _, fun _ _ => rfl⟩
    rw [List.flatMap_nil, Given.read, Given.settle, hawaiting]
    rfl
  | cons part parts ih =>
    obtain ⟨hother, hnodup⟩ := List.nodup_cons.1 hnodup
    obtain ⟨hpart, hparts⟩ := List.forall_mem_cons.1 hparts
    obtain ⟨hfirst, hnew⟩ := List.forall_mem_cons.1 hnew
    obtain ⟨between, hsettled, hvalues, hread⟩ :=
      hpart given (parts.flatMap Part.arguments) hawaiting hfirst
    have hkept : ∀ option, option ≠ part.option →
        between.values? option = given.values? option := by
      intro option hne
      rw [hvalues, if_neg hne]
    have hstill : ∀ other ∈ parts, between.values? other.option = none := by
      intro other hmem
      rw [hkept other.option fun heq => hother (heq ▸ List.mem_map_of_mem hmem)]
      exact hnew other hmem
    obtain ⟨given', hread', hset, hleft⟩ := ih hnodup hparts hsettled hstill
    refine ⟨given', hread.trans hread', List.forall_mem_cons.2 ⟨?_, hset⟩, fun option hmem => ?_⟩
    · rw [hleft part.option hother, hvalues, if_pos rfl]
    · rw [List.map_cons, List.mem_cons, not_or] at hmem
      rw [hleft option hmem.2, hkept option hmem.1]

/-- The value that was set is the one that is found. -/
theorem value?_of_value {text : Option String}
    (h : given.values? option = (value option text).values) : given.value? option = text := by
  unfold Given.value?
  rw [h]
  cases text <;> rfl

/-- A flag is found if it was set. -/
theorem has_of_flag {isGiven : Bool} (h : given.values? option = (flag option isGiven).values) :
    given.has option = isGiven := by
  unfold Given.has
  rw [h]
  cases isGiven <;> rfl

end Part

/-! ## Arguments of tasks -/

/-- The parts for what every command needs. -/
def RunInputs.parts (inputs : RunInputs) : List Part :=
  [.many .input inputs.input, .value .config inputs.config, .flag .semi inputs.semi,
    .flag .doubleQuote inputs.doubleQuote]

/-- All parts of sound inputs set an option. -/
theorem RunInputs.sets_parts {inputs : RunInputs} (hs : inputs.Sound) {known : List Opt}
    (hknown : sharedOptions ⊆ known) : ∀ part ∈ inputs.parts, part.Sets known := by
  have hinput : .input ∈ known := hknown (by decide)
  have hconfig : .config ∈ known := hknown (by decide)
  have hsemi : .semi ∈ known := hknown (by decide)
  have hquote : .doubleQuote ∈ known := hknown (by decide)
  refine List.forall_mem_cons.2 ⟨Part.sets_many hinput rfl rfl hs.input, ?_⟩
  refine List.forall_mem_cons.2 ⟨Part.sets_value hconfig (by decide) fun _ => hs.config, ?_⟩
  refine List.forall_mem_cons.2 ⟨Part.sets_flag hsemi rfl (by decide) (by decide), ?_⟩
  exact List.forall_mem_singleton.2 (Part.sets_flag hquote rfl (by decide) (by decide))

/-- The inputs are found again from what their parts set. -/
theorem RunInputs.ofGiven_parts {inputs : RunInputs} {given : Given}
    (h : ∀ part ∈ inputs.parts, given.values? part.option = part.values) :
    RunInputs.ofGiven given = .ok inputs := by
  obtain ⟨hinput, h⟩ := List.forall_mem_cons.1 h
  obtain ⟨hconfig, h⟩ := List.forall_mem_cons.1 h
  obtain ⟨hsemi, h⟩ := List.forall_mem_cons.1 h
  have hrequire : given.require .input = .ok inputs.input := by
    unfold Given.require
    rw [show given.values? .input = some inputs.input from hinput]
  have hconfig : given.value? .config = inputs.config := Part.value?_of_value hconfig
  have hsemi : given.has .semi = inputs.semi := Part.has_of_flag hsemi
  have hquote := List.forall_mem_singleton.1 h
  have hquote : given.has .doubleQuote = inputs.doubleQuote := Part.has_of_flag hquote
  rw [RunInputs.ofGiven, hrequire, hconfig, hsemi, hquote]
  rfl

/-- A command whose line is made of parts gets what the parts say. -/
theorem readCommand_parts {options : List Opt} {inputs : RunInputs} {own : List Part}
    (hs : inputs.Sound) (hown : ∀ part ∈ own, part.Sets (sharedOptions ++ options))
    (hnodup : ((inputs.parts ++ own).map Part.option).Nodup)
    (hverbose : .verbose ∉ (inputs.parts ++ own).map Part.option) :
    ∃ given, readCommand options ((inputs.parts ++ own).flatMap Part.arguments) = .ok given ∧
      RunInputs.ofGiven given = .ok inputs ∧ given.has .verbose = false ∧
      ∀ part ∈ own, given.values? part.option = part.values := by
  have hshared := inputs.sets_parts hs (List.subset_append_left sharedOptions options)
  obtain ⟨given, hread, hset, hleft⟩ := @Part.read_parts (sharedOptions ++ options) _ {} hnodup
    (List.forall_mem_append.2 ⟨hshared, hown⟩) rfl fun _ _ => rfl
  obtain ⟨hinputs, hset⟩ := List.forall_mem_append.1 hset
  refine ⟨given, ?_, RunInputs.ofGiven_parts hinputs, ?_, hset⟩
  · rw [readCommand, hread]
    rfl
  · unfold Given.has
    rw [hleft .verbose hverbose]
    rfl

theorem RunInputs.flatMap_parts (inputs : RunInputs) :
    inputs.parts.flatMap Part.arguments = inputs.arguments := by
  simp [RunInputs.parts, RunInputs.arguments, Part.many, Part.value, Part.flag]

/-- The parts that only the command for all rules has. -/
def GenerateSettings.parts (settings : GenerateSettings) : List Part :=
  [.value .distFolder settings.distFolder, .value .rulesPrefix settings.rulesPrefix,
    .flag .noOp settings.noOp]

/-- The parts that only the command for one rule has. -/
def RuleSettings.parts (settings : RuleSettings) : List Part :=
  [.value .name (some settings.name), .value .out settings.out, .flag .noOp settings.noOp]

/-- The line that is written for a run on all rules is read as that run, -/
theorem readGenerate_parts {settings : GenerateSettings} (hs : settings.inputs.Sound)
    (hfolder : settings.distFolder ≠ some "") :
    readGenerate ((settings.inputs.parts ++ settings.parts).flatMap Part.arguments) =
      .ok (false, .generate settings) := by
  have hparts : ∀ part ∈ settings.parts,
      part.Sets (sharedOptions ++ [.distFolder, .rulesPrefix]) := by
    refine List.forall_mem_cons.2 ⟨?_, List.forall_mem_cons.2 ⟨?_, List.forall_mem_singleton.2 ?_⟩⟩
    · exact Part.sets_value (by decide) (by decide) fun _ => hfolder
    · exact Part.sets_value (by decide) (by decide) nofun
    · exact Part.sets_flag (by decide) rfl (by decide) (by decide)
  obtain ⟨given, hread, hinputs, hverbose, hset⟩ := readCommand_parts hs hparts
    (show ([.input, .config, .semi, .doubleQuote, .distFolder, .rulesPrefix, .noOp] :
      List Opt).Nodup by decide)
    (show .verbose ∉ ([.input, .config, .semi, .doubleQuote, .distFolder, .rulesPrefix, .noOp] :
      List Opt) by decide)
  obtain ⟨hdist, hset⟩ := List.forall_mem_cons.1 hset
  obtain ⟨hbefore, hset⟩ := List.forall_mem_cons.1 hset
  have hnoOp := List.forall_mem_singleton.1 hset
  have hdist : given.value? .distFolder = settings.distFolder := Part.value?_of_value hdist
  have hbefore : given.value? .rulesPrefix = settings.rulesPrefix := Part.value?_of_value hbefore
  have hnoOp : given.has .noOp = settings.noOp := Part.has_of_flag hnoOp
  rw [readGenerate, hread]
  show (RunInputs.ofGiven given >>= _) = _
  rw [hinputs, hverbose, hdist, hbefore, hnoOp]
  rfl

/-- and the line for a single rule as the run on that rule. -/
theorem readRule_parts {settings : RuleSettings} (hs : settings.inputs.Sound)
    (hout : settings.out ≠ some "") :
    readRule ((settings.inputs.parts ++ settings.parts).flatMap Part.arguments) =
      .ok (false, .rule settings) := by
  have hparts : ∀ part ∈ settings.parts, part.Sets (sharedOptions ++ [.name, .out]) := by
    refine List.forall_mem_cons.2 ⟨?_, List.forall_mem_cons.2 ⟨?_, List.forall_mem_singleton.2 ?_⟩⟩
    · exact Part.sets_value (by decide) (by decide) nofun
    · exact Part.sets_value (by decide) (by decide) fun _ => hout
    · exact Part.sets_flag (by decide) rfl (by decide) (by decide)
  obtain ⟨given, hread, hinputs, hverbose, hset⟩ := readCommand_parts hs hparts
    (show ([.input, .config, .semi, .doubleQuote, .name, .out, .noOp] : List Opt).Nodup by decide)
    (show .verbose ∉ ([.input, .config, .semi, .doubleQuote, .name, .out, .noOp] : List Opt) by
      decide)
  obtain ⟨hname, hset⟩ := List.forall_mem_cons.1 hset
  obtain ⟨hvalue, hset⟩ := List.forall_mem_cons.1 hset
  have hnoOp := List.forall_mem_singleton.1 hset
  have hname : given.require .name = .ok [settings.name] := by
    unfold Given.require
    rw [show given.values? .name = some [settings.name] from hname]
  have hvalue : given.value? .out = settings.out := Part.value?_of_value hvalue
  have hnoOp : given.has .noOp = settings.noOp := Part.has_of_flag hnoOp
  rw [readRule, hread]
  show (RunInputs.ofGiven given >>= _) = _
  rw [hinputs]
  show (given.require .name >>= _) = _
  rw [hname, hverbose, hvalue, hnoOp]
  rfl

/-- The arguments of a task ask for it. -/
theorem Task.ofArguments_arguments {task : Task} (hs : task.Sound) :
    Invocation.ofArguments task.arguments = .ok { task } := by
  cases task with
  | generate settings =>
    have harguments : (Task.generate settings).arguments =
        "generate" :: (settings.inputs.parts ++ settings.parts).flatMap Part.arguments := by
      rw [List.flatMap_append, RunInputs.flatMap_parts]
      simp [Task.arguments, GenerateSettings.parts, Part.value, Part.flag]
    rw [harguments, Invocation.ofArguments]
    show (readGenerate _ >>= _) = _
    rw [readGenerate_parts hs.1 hs.2]
    rfl
  | rule settings =>
    have harguments : (Task.rule settings).arguments =
        "rule" :: (settings.inputs.parts ++ settings.parts).flatMap Part.arguments := by
      rw [List.flatMap_append, RunInputs.flatMap_parts]
      simp [Task.arguments, RuleSettings.parts, Part.value, Part.flag, valueArguments]
    rw [harguments, Invocation.ofArguments]
    show (readRule _ >>= _) = _
    rw [readRule_parts hs.1 hs.2]
    rfl

end LintTypes.Command
