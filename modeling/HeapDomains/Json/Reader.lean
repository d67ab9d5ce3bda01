import HeapDomains.Error
import HeapDomains.Ordered.Map
import HeapDomains.Word
import HeapDomains.Json.Parser

/-!
# Reading values from JSON

A reader makes a value of a draft or says what is wrong first. What is wrong with the text and what
is wrong with its content are met in the order in which they stand in the text. `Fields` reads the
fields of a record, which is written as an object or as the list of its fields; the fields of an
object come in any order, and the problem that stands first decides.
-/

namespace HeapDomains

/-- Why a value cannot be read. -/
inductive ReadError where
  /-- The text is faulty. -/
  | fault (fault : JsonFault)
  /-- The text is sound and does not have the form of the value. -/
  | shape
  /-- The value contradicts itself. -/
  | rejected (violation : InvariantViolation)
  deriving DecidableEq

/-- Where a draft comes from. -/
inductive JsonSource where
  /-- A text, read inside this many lists and objects. -/
  | text (depth : Nat)
  /-- A value at hand, whose text was read in full before. -/
  | value
  deriving DecidableEq

namespace JsonSource

/-- The source of what stands in a list or an object. -/
def inner : JsonSource → JsonSource
  | text depth => text (depth + 1)
  | value => value

/-- The objection to something that stands where the end was expected, or to something that is no
name where one was expected. In a text it is a fault. -/
def unexpected : JsonSource → ReadError
  | text _ => .fault .malformed
  | value => .shape

end JsonSource

/-- A way to read a value from a draft. -/
abbrev JsonReader (α : Type) := JsonSource → JsonDraft → Except ReadError α

namespace JsonReader

/-- The objection to a draft of the wrong kind. A text between quotes or a number is read before it
is objected to. -/
def mismatch : JsonDraft → ReadError
  | .string s => s.textFault?.elim .shape .fault
  | .number .excessive => .fault .malformed
  | .broken fault => .fault fault
  | _ => .shape

/-- Reads a text between quotes. -/
def quoted (s : JsonString) : Except ReadError String :=
  match s.text with
  | .ok text => .ok text
  | .error fault => .error (.fault fault)

/-- Reads a text. -/
def string : JsonReader String
  | _, .string s => quoted s
  | _, j => .error (mismatch j)

/-- Reads a truth value. -/
def bool : JsonReader Bool
  | _, .bool b => .ok b
  | _, j => .error (mismatch j)

/-- Reads a natural number below a limit. -/
def natBelow (limit : Nat) : JsonReader Nat
  | _, .number (.integer n) => if 0 ≤ n ∧ n < limit then .ok n.toNat else .error .shape
  | _, j => .error (mismatch j)

/-- Reads a number of 32 bits. -/
def uint32 : JsonReader UInt32 := fun source j =>
  (natBelow UInt32.size source j).map UInt32.ofNat

/-- Reads a number of 64 bits. -/
def word : JsonReader Word := fun source j => (natBelow wordLimit source j).map (BitVec.ofNat 64)

/-- Reads the number of an entity. -/
def id (k : IdKind) : JsonReader (Id k) := fun source j => (uint32 source j).map Id.mk

/-- Reads a value or null. -/
def option {α : Type} (r : JsonReader α) : JsonReader (Option α)
  | _, .null => .ok none
  | source, j => (r source j).map some

/-- Refuses a list or an object that may have more parts and does not end well. -/
def ended (ending : JsonEnding) : Except ReadError Unit :=
  match ending.fault? with
  | none => .ok ()
  | some fault => .error (.fault fault)

/-- Refuses a list or an object that has all its parts and does not end there. -/
def complete (source : JsonSource) : JsonEnding → Except ReadError Unit
  | .closed => .ok ()
  | .comma => .error source.unexpected
  | .faulty fault => .error (.fault fault)

/-- Reads a list. -/
def list {α : Type} (r : JsonReader α) : JsonReader (List α)
  | source, .array items ending => do
    let values ← items.mapM (r source.inner)
    ended ending
    return values
  | _, j => .error (mismatch j)

/-- The value of a name. -/
def named {α : Type} (ofName? : String → Option α) (s : JsonString) : Except ReadError α := do
  let text ← quoted s
  match ofName? text with
  | some value => return value
  | none => throw .shape

/-- Reads one of several names, written as a text or as an object that gives it the value null. -/
def name {α : Type} (ofName? : String → Option α) : JsonReader α
  | _, .string s => named ofName? s
  | source, .object ((key, value) :: more) ending => do
    let result ← named ofName? key
    match value with
    | .null =>
      if more.isEmpty then complete source ending else throw source.unexpected
      return result
    | value => throw (mismatch value)
  | _, .object [] (.faulty fault) => .error (.fault fault)
  | _, .broken fault => .error (.fault fault)
  | source, _ => .error source.unexpected

/-- The number that a member is named by. The name has to be one number from its first character to
its last. -/
def numericName (source : JsonSource) (key : JsonString) : Except ReadError UInt32 := do
  let chars ← match source with
    | .text _ => pure key.raw
    | .value => (quoted key).map String.toList
  let atEnd := match source with
    | .text _ => key.fault.getD .malformed
    | .value => .cutShort
  match chars with
  | [] => .error (.fault .malformed)
  | c :: _ =>
    if c = '-' ∨ c.isDigit then
      match JsonText.scanNumber chars with
      | .error .cutShort => .error (.fault atEnd)
      | .error .malformed => .error (.fault .malformed)
      | .ok (number, rest) =>
        let n ← uint32 source (.number number)
        if rest.isEmpty ∧ key.fault.isNone then return n else .error (.fault .malformed)
    else .error (.fault .malformed)

/-- Reads a map whose keys are numbers. Of two values for one key the later one counts. -/
def numericMap {κ α : Type} [Ranked κ] (ofNumber : UInt32 → κ) (r : JsonReader α) :
    JsonReader (OrderedMap κ α)
  | source, .object members ending => do
    let entries ← members.mapM fun (key, value) => do
      let number ← numericName source key
      return (ofNumber number, ← r source.inner value)
    ended ending
    return OrderedMap.ofList entries
  | _, j => .error (mismatch j)

/-- Refuses a draft with a fault that is met when it is read in full. -/
def inFull (source : JsonSource) (j : JsonDraft) : Except ReadError Unit :=
  match source with
  | .value => .ok ()
  | .text depth =>
    match j.fullFault? depth with
    | some fault => .error (.fault fault)
    | none => .ok ()

end JsonReader

/-- What is known of the fields of a record: where each of them stands, and where a missing one is
noticed. -/
structure FieldValues where
  /-- The fields that are given, each with its position. -/
  given : List (String × Nat × JsonDraft)
  /-- The position at which a missing field is noticed. -/
  afterAll : Nat

/-- A way to read the fields of a record. A problem comes with the position at which it is met. -/
structure Fields (α : Type) where
  /-- The names of the fields, in the order in which a list gives them. -/
  names : List String
  /-- Reads the fields. -/
  read : JsonSource → FieldValues → Except (Nat × ReadError) α

namespace Fields

/-- The problem that is met first. -/
def earlier (p q : Nat × ReadError) : Nat × ReadError := if q.1 < p.1 then q else p

/-- Both of two outcomes, or the problem that is met first. -/
def both {α β γ : Type} (f : α → β → γ) :
    Except (Nat × ReadError) α → Except (Nat × ReadError) β → Except (Nat × ReadError) γ
  | .ok a, .ok b => .ok (f a b)
  | .error p, .ok _ => .error p
  | .ok _, .error q => .error q
  | .error p, .error q => .error (earlier p q)

instance : Functor Fields where
  map f fields := ⟨fields.names, fun source values => (fields.read source values).map f⟩

instance : Seq Fields where
  seq f fields := ⟨f.names ++ (fields ()).names, fun source values =>
    both (fun g a => g a) (f.read source values) ((fields ()).read source values)⟩

/-- Reads a field of some name, with a value for a field that is not given. -/
def field {α : Type} (name : String) (r : JsonReader α) (missing : Except ReadError α) :
    Fields α where
  names := [name]
  read source values :=
    match values.given.lookup name with
    | none => missing.mapError (values.afterAll, ·)
    | some (position, j) => (r source j).mapError (position, ·)

/-- Reads a field that has to be given. -/
def required {α : Type} (name : String) (r : JsonReader α) : Fields α :=
  field name r (.error .shape)

/-- Reads a field that stands for a default when it is not given. -/
def optional {α : Type} (name : String) (r : JsonReader α) (default : α) : Fields α :=
  field name r (.ok default)

/-- The members of an object that are fields of these names, up to the first problem: a faulty name,
a field given twice, or a faulty value under another name. -/
def scanMembers (names : List String) (position : Nat) (given : List (String × Nat × JsonDraft)) :
    List (JsonString × JsonDraft) → List (String × Nat × JsonDraft) × Option (Nat × ReadError)
  | [] => (given, none)
  | (key, value) :: rest =>
    match key.text with
    | .error fault => (given, some (position, .fault fault))
    | .ok name =>
      if name ∈ names then
        if (given.lookup name).isSome then (given, some (position, .shape))
        else scanMembers names (position + 1) (given ++ [(name, position, value)]) rest
      else
        match value.fault? with
        | some fault => (given, some (position, .fault fault))
        | none => scanMembers names (position + 1) given rest

/-- The problem at the end of a list of the fields of a record. A list with all fields may not go
on. -/
def endOfItems (source : JsonSource) (fields : Nat) (items : List JsonDraft) (ending : JsonEnding) :
    Except ReadError Unit :=
  if fields < items.length then .error source.unexpected
  else if items.length = fields then JsonReader.complete source ending
  else JsonReader.ended ending

/-- The outcome of reading fields, unless a problem with the members is met before. -/
def unlessBefore {α : Type} (problem : Option (Nat × ReadError)) (r : Except (Nat × ReadError) α) :
    Except ReadError α :=
  match problem, r with
  | none, r => r.mapError (·.2)
  | some p, .ok _ => .error p.2
  | some p, .error q => .error (earlier p q).2

/-- Reads the fields from an object. -/
def ofMembers {α : Type} (fields : Fields α) (source : JsonSource)
    (members : List (JsonString × JsonDraft)) (ending : JsonEnding) : Except ReadError α :=
  let (given, problem) := scanMembers fields.names 0 [] members
  let problem := problem.or (ending.fault?.map fun fault => (members.length, .fault fault))
  unlessBefore problem (fields.read source ⟨given, members.length + 1⟩)

/-- Reads the fields from a list. -/
def ofItems {α : Type} (fields : Fields α) (source : JsonSource) (items : List JsonDraft)
    (ending : JsonEnding) : Except ReadError α :=
  let given := (fields.names.zip items).zipIdx.map fun ((name, j), position) => (name, position, j)
  let problem := match endOfItems source fields.names.length items ending with
    | .ok _ => none
    | .error error => some (min items.length fields.names.length, error)
  unlessBefore problem (fields.read source ⟨given, items.length + 1⟩)

/-- Reads a record. -/
def reader {α : Type} (fields : Fields α) : JsonReader α
  | source, .object members ending => fields.ofMembers source.inner members ending
  | source, .array items ending => fields.ofItems source.inner items ending
  | _, j => .error (JsonReader.mismatch j)

/-- The fields of a value that has none. -/
def nothing {α : Type} (a : α) : Fields α := ⟨[], fun _ _ => .ok a⟩

end Fields

/-- Reads the member of some name, which may be given once, and reads all others in full. -/
def JsonReader.single {α : Type} (name : String) (r : JsonReader α) (source : JsonSource) :
    Option α → List (JsonString × JsonDraft) → Except ReadError (Option α)
  | found, [] => .ok found
  | found, (key, value) :: rest => do
    if (← quoted key) = name then
      if found.isSome then throw .shape
      single name r source (some (← r source value)) rest
    else
      inFull source value
      single name r source found rest

/-- Reads a text that has to be one of several names. -/
def JsonReader.plainName {α : Type} (ofName? : String → Option α) : JsonReader α
  | _, .string s => named ofName? s
  | _, j => .error (mismatch j)

/-- Reads one of several kinds of record, where a tag says which. In an object the tag is the member
of some name, in a list the first item. The whole is read in full before the fields are looked at.
-/
def JsonReader.tagged {α : Type} (tag : String) (kind? : String → Option (Fields α)) : JsonReader α
  | source, .object members ending => do
    let found ← single tag (plainName kind?) source.inner none members
    ended ending
    match found with
    | some fields => fields.ofMembers .value members .closed
    | none => throw .shape
  | _, .array [] ending => do
    ended ending
    throw .shape
  | source, .array (first :: items) ending => do
    let fields ← plainName kind? source.inner first
    items.forM (inFull source.inner)
    ended ending
    fields.ofItems .value items .closed
  | _, j => .error (mismatch j)

/-- Reads a value from a text that holds nothing else. -/
def JsonReader.readText {α : Type} (r : JsonReader α) (s : String) : Except ReadError α := do
  let text := JsonText.ofString s
  let value ← r (.text 0) text.value
  if text.hasMore then .error (.fault .malformed)
  return value

/-- Reads a value from the value that a draft without faults stands for. -/
def JsonReader.readValue {α : Type} (r : JsonReader α) (j : JsonDraft) : Except ReadError α :=
  r .value j.canonical

end HeapDomains
