import HeapDomains.Config.Basic

/-!
# Commands

What the program can be asked to do, and how its arguments ask for it. `Request.ofArguments?` reads
the arguments from left to right; the first of them that asks for help or makes no sense decides.
-/

namespace HeapDomains

/-- What the program can be asked to do. -/
inductive Command where
  /-- Run the analysis on the input in a file, with the settings of a file or else of a preset, and
  write the report to a file or else show it. -/
  | run (input : String) (config : Option String) (preset : Preset) (output : Option String)
  /-- Show the settings of a preset as a configuration file. -/
  | printConfig (preset : Preset)
  /-- Sum up the measurements in a benchmark log. -/
  | benchSummary (file : String)
  deriving DecidableEq

/-- What a help page is about. -/
inductive HelpTopic where
  /-- The program. -/
  | program
  /-- The command that runs the analysis. -/
  | run
  /-- The command that shows settings. -/
  | printConfig
  /-- The command that sums up a log. -/
  | benchSummary
  /-- The command that shows help pages. -/
  | help
  deriving DecidableEq

/-- The topic of a command's name. -/
def HelpTopic.ofName? : String → Option HelpTopic
  | "run" => some run
  | "print-config" => some printConfig
  | "bench-summary" => some benchSummary
  | "help" => some help
  | _ => none

/-- What the arguments of the program ask for. -/
inductive Request where
  /-- To do something. -/
  | command (command : Command)
  /-- To show a help page. -/
  | help (topic : HelpTopic)
  deriving DecidableEq

/-- A part of the arguments of a command. -/
inductive Argument where
  /-- An option, by its letter, with its value. -/
  | option (letter : Char) (value : String)
  /-- A value that belongs to no option. -/
  | operand (value : String)
  /-- A wish for help. -/
  | help
  /-- Something that makes no sense. -/
  | faulty
  deriving DecidableEq

/-- An option: its letter and its name. Every option takes a value. -/
abbrev OptionName : Type := Char × String

/-- An option at the start of arguments, where its value may be attached to it or is the next
argument, and the arguments that follow. A value that is not attached starts with no dash, unless it
is one. -/
def takeOption (letter : Char) (attached : Option String) (rest : List String) :
    Argument × List String :=
  match attached, rest with
  | some value, rest => (.option letter value, rest)
  | none, [] => (.faulty, [])
  | none, value :: rest =>
    if value = "-" ∨ value.toList.head? ≠ some '-' then (.option letter value, rest)
    else (.faulty, [])

/-- An option takes none of the arguments that are left, or the next one. -/
theorem length_takeOption_le (letter : Char) (attached : Option String) (rest : List String) :
    (takeOption letter attached rest).2.length ≤ rest.length := by
  unfold takeOption
  split
  · simp
  · simp
  · split <;> simp

/-- A name and the value after the first equality sign, if there is one. -/
def splitAtEquals (text : List Char) : String × Option String :=
  match text.dropWhile (· ≠ '=') with
  | [] => (String.ofList text, none)
  | _ :: value => (String.ofList (text.takeWhile (· ≠ '=')), some (String.ofList value))

/-- What an argument says that starts with two dashes, after these, and the arguments that follow.
-/
def takeLong (options : List OptionName) (text : List Char) (rest : List String) :
    Argument × List String :=
  match splitAtEquals text with
  | ("help", none) => (.help, rest)
  | (name, attached) =>
    match options.find? fun option => option.2 = name with
    | some (letter, _) => takeOption letter attached rest
    | none => (.faulty, [])

/-- What an argument says that starts with one dash, after this, and the arguments that follow. An
equality sign may stand before an attached value. -/
def takeShort (options : List OptionName) (letter : Char) (text : List Char) (rest : List String) :
    Argument × List String :=
  if letter = 'h' then (.help, rest)
  else if (options.lookup letter).isSome then
    match text with
    | [] => takeOption letter none rest
    | '=' :: value => takeOption letter (some (String.ofList value)) rest
    | value => takeOption letter (some (String.ofList value)) rest
  else (.faulty, [])

/-- What the first argument says, and the arguments that follow. -/
def takeArgument (options : List OptionName) (first : String) (rest : List String) :
    Argument × List String :=
  match first.toList with
  | '-' :: '-' :: text => takeLong options text rest
  | '-' :: letter :: text => takeShort options letter text rest
  | _ => (.operand first, rest)

/-- Taking up an argument leaves no more arguments than were left. -/
theorem length_takeArgument_le (options : List OptionName) (first : String)
    (rest : List String) : (takeArgument options first rest).2.length ≤ rest.length := by
  have h := fun letter attached => length_takeOption_le letter attached rest
  unfold takeArgument
  split
  · unfold takeLong
    split
    · simp
    · split
      · exact h _ _
      · simp
  · unfold takeShort
    split
    · simp
    · split
      · split <;> exact h _ _
      · simp
  · simp

/-- The parts of the arguments of a command. After two dashes there are only operands. -/
def splitArguments (options : List OptionName) (arguments : List String) : List Argument :=
  match arguments with
  | [] => []
  | first :: rest =>
    if first = "--" then rest.map .operand
    else
      (takeArgument options first rest).1 ::
        splitArguments options (takeArgument options first rest).2
termination_by arguments.length
decreasing_by exact Nat.lt_succ_of_le (length_takeArgument_le options first rest)

/-- How a command takes up its arguments. -/
structure Usage (σ : Type) where
  /-- The topic of its help page. -/
  topic : HelpTopic
  /-- Its options. -/
  options : List OptionName
  /-- What is known before the first argument. -/
  start : σ
  /-- Takes up an option. -/
  option? : σ → Char → String → Option σ
  /-- Takes up an operand. -/
  operand? : σ → String → Option σ
  /-- The command, when nothing is missing. -/
  command? : σ → Option Command

namespace Usage

/-- What the parts of the arguments ask for, given what is known before them. -/
def request? {σ : Type} (u : Usage σ) (known : σ) : List Argument → Option Request
  | [] => (u.command? known).map .command
  | .option letter value :: rest =>
    (u.option? known letter value).bind fun known => u.request? known rest
  | .operand value :: rest => (u.operand? known value).bind fun known => u.request? known rest
  | .help :: _ => some (.help u.topic)
  | .faulty :: _ => none

/-- What the arguments of the command ask for. -/
def read? {σ : Type} (u : Usage σ) (arguments : List String) : Option Request :=
  u.request? u.start (splitArguments u.options arguments)

end Usage

/-- The value of an option that is given for the first time. -/
def firstValue? {α : Type} (known : Option α) (value : Option α) : Option (Option α) :=
  if known.isSome then none else value.map some

/-- A path; it may not be empty. -/
def path? (value : String) : Option String := if value = "" then none else some value

/-- The preset of a name, as an option. -/
def preset? (value : String) : Option Preset := (Preset.ofName value).toOption

/-- What is known of the arguments of a run. -/
structure RunArguments where
  /-- The file with the input. -/
  input : Option String := none
  /-- The file with the configuration. -/
  config : Option String := none
  /-- The preset. -/
  preset : Option Preset := none
  /-- The file for the report. -/
  output : Option String := none
  deriving DecidableEq

/-- The arguments of a run. The input has to be given. -/
def runUsage : Usage RunArguments where
  topic := .run
  options := [('i', "input"), ('c', "config"), ('p', "preset"), ('o', "output")]
  start := {}
  option? known letter value :=
    match letter with
    | 'i' => (firstValue? known.input (path? value)).map fun input => { known with input }
    | 'c' => (firstValue? known.config (path? value)).map fun config => { known with config }
    | 'p' => (firstValue? known.preset (preset? value)).map fun preset => { known with preset }
    | 'o' => (firstValue? known.output (path? value)).map fun output => { known with output }
    | _ => none
  operand? _ _ := none
  command? known :=
    known.input.map fun input =>
      .run input known.config (known.preset.getD .standard) known.output

/-- The arguments of the command that shows settings. -/
def printConfigUsage : Usage (Option Preset) where
  topic := .printConfig
  options := [('p', "preset")]
  start := none
  option? known _ value := firstValue? known (preset? value)
  operand? _ _ := none
  command? known := some (.printConfig (known.getD .standard))

/-- The arguments of the command that sums up a log. -/
def benchSummaryUsage : Usage (Option String) where
  topic := .benchSummary
  options := []
  start := none
  option? _ _ _ := none
  operand? known value := firstValue? known (path? value)
  command? known := known.map .benchSummary

/-- What the arguments of the program ask for. -/
def Request.ofArguments? : List String → Option Request
  | "run" :: rest => runUsage.read? rest
  | "print-config" :: rest => printConfigUsage.read? rest
  | "bench-summary" :: rest => benchSummaryUsage.read? rest
  | ["help"] => some (.help .program)
  | ["help", name] => (HelpTopic.ofName? name).map .help
  | first :: _ =>
    match first.toList with
    | '-' :: 'h' :: _ => some (.help .program)
    | _ => if first = "--help" then some (.help .program) else none
  | [] => none

end HeapDomains
