/-!
# Outcomes of commands

What a command leads to: a text to show, a note, or a failure with its causes. `Failure.text` words
a failure with the causes below it.
-/

namespace HeapDomains

/-- Why a command ends early. -/
structure Failure where
  /-- What went wrong. -/
  what : String
  /-- Why it did, and why that happened in turn. -/
  causes : List String
  deriving DecidableEq

namespace Failure

/-- A text whose lines after the first are indented. -/
def hanging (columns : Nat) (text : String) : String :=
  String.ofList
    (text.toList.flatMap fun c => if c = '\n' then c :: List.replicate columns ' ' else [c])

/-- One of several causes, with its number. -/
def numbered (cause : String) (number : Nat) : String :=
  String.ofList ((Nat.toDigits 10 number).leftpad 5 ' ') ++ ": " ++ hanging 7 cause

/-- The failure with its causes below it. -/
def text (f : Failure) : String :=
  let lines :=
    match f.causes with
    | [] => []
    | [cause] => ["", "Caused by:", "    " ++ hanging 4 cause]
    | causes => "" :: "Caused by:" :: causes.mapIdx fun number cause => numbered cause number
  "\n".intercalate (("Error: " ++ f.what) :: lines)

end Failure

/-- What a command leads to. -/
inductive Outcome where
  /-- A text is shown as the answer. -/
  | answer (text : String)
  /-- The answer is in a file, and a line says so. -/
  | note (line : String)
  /-- The command ends early. -/
  | failed (failure : Failure)
  /-- The arguments make no sense. -/
  | misused
  deriving DecidableEq

/-- The exit code of an outcome. -/
def Outcome.code : Outcome → Nat
  | answer _ | note _ => 0
  | failed _ => 1
  | misused => 2

end HeapDomains
