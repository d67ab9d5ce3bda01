import HeapDomains.Bench
import HeapDomains.Command.Help
import HeapDomains.Command.Outcome
import HeapDomains.Config.Yaml
import HeapDomains.Input
import HeapDomains.Report.Json

/-!
# Running commands

What the commands do, given how files are read and written. A run loads its settings first, then its
input; the report is written last, so that a run that fails leaves no file behind.
-/

namespace HeapDomains

/-- Why a file cannot be read or written. -/
inductive FileFault where
  /-- It cannot be opened. -/
  | opening (reason : String)
  /-- It can be opened, and then not be read or written. -/
  | use (reason : String)
  deriving DecidableEq

/-- The reason of a fault. -/
def FileFault.reason : FileFault → String
  | opening reason | use reason => reason

/-- How files are read and written. -/
structure Files (m : Type → Type) where
  /-- The content of a file. -/
  read : String → m (Except FileFault ByteArray)
  /-- Makes a file with some content, in place of what was there. -/
  write : String → String → m (Except FileFault Unit)

/-- The failure of a configuration error, which may be due to a file. -/
def ConfigError.causes (e : ConfigError) : List String :=
  match e with
  | .file reason => [e.message, reason]
  | _ => [e.message]

/-- Why an input cannot be read. -/
def ReadError.message : ReadError → String
  | fault .malformed => "malformed JSON"
  | fault .cutShort => "JSON that ends too early"
  | shape => "JSON of the wrong form"
  | rejected violation => (AnalysisError.invariant violation).message

/-- The text of bytes, which have to be UTF-8. -/
def textOfBytes (bytes : ByteArray) : Except String String :=
  match String.fromUTF8? bytes with
  | some text => .ok text
  | none => .error BenchSummary.notUtf8

/-- The settings of a configuration file with some content. -/
def settingsOf (content : Except FileFault ByteArray) : Except ConfigError PassConfig := do
  let bytes ← content.mapError fun fault => .file fault.reason
  PassConfig.ofYaml (← (textOfBytes bytes).mapError .file)

/-- The input of a file with some content. -/
def inputOf (path : String) (content : Except FileFault ByteArray) :
    Except Failure AnalysisInput := do
  let unreadable (reason : String) : Failure := ⟨"failed to parse " ++ path, [reason]⟩
  let bytes ← content.mapError fun fault =>
    match fault with
    | .opening reason => ⟨"failed to open " ++ path, [reason]⟩
    | .use reason => unreadable reason
  let text ← (textOfBytes bytes).mapError unreadable
  (AnalysisInput.reader.readText text).mapError fun e => unreadable e.message

/-- The report on an input. -/
def reportOn (config : PassConfig) (input : AnalysisInput) : Except Failure Report :=
  (input.program.analyse config input.facts).mapError fun violation =>
    ⟨"isolation pass aborted", [(AnalysisError.invariant violation).message, violation.message]⟩

/-- The line that says where a report is and what it holds. -/
def Report.note (r : Report) (path : String) : String :=
  toString r.stats.functionsInstrumented ++ " functions instrumented, " ++
    toString r.stats.relocations ++ " relocations, " ++ toString r.stats.hardeningSteps ++
    " rewrites -> " ++ path

/-- What a summary of a log with some content leads to. -/
def summaryOutcome (path : String) (content : Except FileFault ByteArray) : Outcome :=
  match content with
  | .error (.opening reason) => .failed ⟨"failed to open " ++ path, [reason]⟩
  | .error (.use reason) => .failed ⟨reason, []⟩
  | .ok bytes =>
    match BenchSummary.ofBytes? bytes with
    | some summary => .answer (summary.display ++ "\n")
    | none => .failed ⟨BenchSummary.notUtf8, []⟩

/-- What writing a report to a file leads to. -/
def writtenOutcome (report : Report) (path : String) (written : Except FileFault Unit) : Outcome :=
  match written with
  | .error (.opening reason) => .failed ⟨"failed to create " ++ path, [reason]⟩
  | .error (.use reason) => .failed ⟨reason, []⟩
  | .ok () => .note (report.note path)

variable {m : Type → Type} [Monad m]

/-- The settings of a run: those of the configuration file, if one is given. -/
def loadSettings (files : Files m) (config : Option String) (preset : Preset) :
    m (Except Failure PassConfig) :=
  match config with
  | none => pure (.ok (.ofPreset preset))
  | some path => do
    let content ← files.read path
    return (settingsOf content).mapError fun e => ⟨"failed to load config " ++ path, e.causes⟩

/-- Carries out a command. -/
def Command.execute (files : Files m) : Command → m Outcome
  | run path config preset output => do
    match ← loadSettings files config preset with
    | .error failure => return .failed failure
    | .ok settings =>
      let content ← files.read path
      match (inputOf path content).bind (reportOn settings) with
      | .error failure => return .failed failure
      | .ok report =>
        match output with
        -- Only what is shown ends with a line break.
        | none => return .answer (report.json.pretty ++ "\n")
        | some output => do
          let written ← files.write output report.json.pretty
          return writtenOutcome report output written
  | printConfig preset => return .answer (PassConfig.ofPreset preset).yaml
  | benchSummary path => do
    let content ← files.read path
    return summaryOutcome path content

/-- Does what the arguments of the program ask for. -/
def execute (files : Files m) (arguments : List String) : m Outcome :=
  match Request.ofArguments? arguments with
  | none => return .misused
  | some (.help topic) => return .answer topic.page
  | some (.command command) => command.execute files

end HeapDomains
