import HeapDomains.Command.Run

/-!
# The program

Gives the commands access to files and shows their outcomes.
-/

namespace HeapDomains

/-- The reason that an error gives. -/
def reasonOf (e : IO.Error) : String :=
  let withCode (code : UInt32) (details : String) : String :=
    details ++ " (os error " ++ toString code.toNat ++ ")"
  match e with
  | .noFileOrDirectory _ code details => withCode code details
  | .permissionDenied _ code details => withCode code details
  | .inappropriateType _ code details => withCode code details
  | .invalidArgument _ code details => withCode code details
  | .otherError code details => withCode code details
  | e => toString e

/-- Opens a file and uses it. -/
def usingFile {α : Type} (path : String) (mode : IO.FS.Mode) (use : IO.FS.Handle → IO α) :
    IO (Except FileFault α) := do
  match ← (IO.FS.Handle.mk path mode).toBaseIO with
  | .error e => return .error (.opening (reasonOf e))
  | .ok handle =>
    match ← (use handle).toBaseIO with
    | .error e => return .error (.use (reasonOf e))
    | .ok value => return .ok value

/-- The files of the system. -/
def systemFiles : Files IO where
  read path := usingFile path .read fun handle => handle.readBinToEnd
  write path text := usingFile path .write fun handle => handle.putStr text *> handle.flush

/-- Does what the arguments ask for and shows the outcome. -/
def runProgram (arguments : List String) : IO UInt32 := do
  let outcome ← execute systemFiles arguments
  match outcome with
  | .answer text => IO.print text
  | .note line => IO.eprintln line
  | .failed failure => IO.eprintln failure.text
  | .misused => IO.eprint HelpTopic.program.page
  return UInt32.ofNat outcome.code

end HeapDomains

/-- The entry point of the program. -/
def main (arguments : List String) : IO UInt32 := HeapDomains.runProgram arguments
