import HeapDomains.Command.Run

/-!
# Commands on a directory in memory

A directory of files without directories below it, as the only files that commands see. Paths are
relative to it.
-/

namespace HeapDomains

/-- The files of a directory by their names, the latest first. -/
abbrev Directory : Type := List (String × String)

namespace Directory

/-- Why a path leads nowhere. -/
def notFound : String := "No such file or directory (os error 2)"

/-- Why a path through a file leads nowhere. -/
def notADirectory : String := "Not a directory (os error 20)"

/-- Why a directory has no content. -/
def isADirectory : String := "Is a directory (os error 21)"

/-- Why a file cannot have a name. -/
def nameTooLong : String := "File name too long (os error 36)"

/-- The most bytes of a name. -/
def longestName : Nat := 255

/-- The name of the file that a path leads to, or why it leads to none. Empty parts and dots between
slashes lead nowhere, and a file has nothing below it. -/
def name? (d : Directory) (path : String) : Except String String :=
  let parts := path.splitOn "/"
  let steps := parts.filter fun part => part ≠ "" ∧ part ≠ "."
  match steps with
  | [] => .error isADirectory
  | name :: rest =>
    let last := parts.getLastD ""
    if parts.head? = some "" then .error notFound
    else if longestName < name.utf8ByteSize then .error nameTooLong
    else if name = ".." then .error (if rest = [] then isADirectory else notFound)
    else if rest = [] ∧ last ≠ "" ∧ last ≠ "." then .ok name
    else if (d.lookup name).isSome then .error notADirectory
    else .error notFound

/-- The content of the file at a path. A directory can be opened, but not read. -/
def read (d : Directory) (path : String) : Except FileFault ByteArray :=
  match d.name? path with
  | .error reason => .error (if reason = isADirectory then .use reason else .opening reason)
  | .ok name =>
    match d.lookup name with
    | some text => .ok text.toUTF8
    | none => .error (.opening notFound)

/-- The directory with a file put at a path, in place of what was there. -/
def write (d : Directory) (path text : String) : Except FileFault Directory :=
  match d.name? path with
  | .error reason => .error (.opening reason)
  | .ok name => .ok ((name, text) :: d)

/-- Access to the files of a directory. -/
def files : Files (StateM Directory) where
  read path := fun d => (d.read path, d)
  write path text := fun d =>
    match d.write path text with
    | .error fault => (.error fault, d)
    | .ok after => (.ok (), after)

end Directory

end HeapDomains
