import HeapDomains.Id
import HeapDomains.Config.Error

/-!
# Analysis errors

An invariant violation says that the program, the facts about it and the call-path graph do not fit
together. It is the only fatal error: a run stops at the first one and reports nothing else.
-/

namespace HeapDomains

/-- A contradiction between a program, the facts about it and its call-path graph. -/
inductive InvariantViolation where
  /-- An instruction is used as a call site and is not a call. -/
  | notACallSite (site : InstId)
  /-- No instruction has this number. -/
  | unknownInstruction (inst : InstId)
  /-- No function has this number. -/
  | unknownFunction (function : FunctionId)
  /-- A call site has no node in the call-path graph. -/
  | unknownCallSite (site : InstId)
  /-- A function has more flagged call sites than flag bits. -/
  | flagBitsExhausted (function : FunctionId) (max : UInt32)
  /-- Two functions share a number. -/
  | duplicateFunction (function : FunctionId)
  /-- Two instructions share a number. -/
  | duplicateInstruction (inst : InstId)
  deriving DecidableEq

/-- The wording of an invariant violation. -/
def InvariantViolation.message : InvariantViolation → String
  | notACallSite site => "instruction " ++ toString site ++ " is not a call site"
  | unknownInstruction inst => "unknown instruction " ++ toString inst
  | unknownFunction function => "unknown function " ++ toString function
  | unknownCallSite site => "call site " ++ toString site ++ " has no call-path node"
  | flagBitsExhausted function max =>
    "function " ++ toString function ++ " needs more than " ++ toString max.toNat ++ " flag bits"
  | duplicateFunction function => "duplicate function id " ++ toString function.toNat
  | duplicateInstruction inst => "duplicate instruction id " ++ toString inst.toNat

/-- The name of a kind of invariant violation. -/
def InvariantViolation.kind : InvariantViolation → String
  | notACallSite _ => "NotACallSite"
  | unknownInstruction _ => "UnknownInstruction"
  | unknownFunction _ => "UnknownFunction"
  | unknownCallSite _ => "UnknownCallSite"
  | flagBitsExhausted .. => "FlagBitsExhausted"
  | duplicateFunction _ | duplicateInstruction _ => "DuplicateId"

/-- Why an analysis ends without a report. -/
inductive AnalysisError where
  /-- Program, facts and graph contradict each other. -/
  | invariant (violation : InvariantViolation)
  /-- The configuration is refused. -/
  | config (error : ConfigError)
  /-- A file cannot be read or written. -/
  | file (reason : String)
  deriving DecidableEq

namespace AnalysisError

/-- The wording of an analysis error. -/
def message : AnalysisError → String
  | invariant violation => "Invariant violation: " ++ violation.message
  | config error => "Configuration error: " ++ error.message
  | file reason => "IO error: " ++ reason

/-- The name of a kind of analysis error. -/
def kind : AnalysisError → String
  | invariant violation => violation.kind
  | config error => error.kind
  | file _ => "Io"

/-- Whether the error ends the run for good. -/
def isFatal : AnalysisError → Bool
  | invariant _ => true
  | config _ | file _ => false

end AnalysisError

end HeapDomains
