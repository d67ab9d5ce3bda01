/-!
# JSON drafts

What stands in a JSON text that may be faulty. A draft keeps everything up to the first fault, so a
reader that goes through it from the start meets the faults of the text and its own objections in
the order in which they stand there. Text between quotes is kept as written: whether its escapes
stand for characters is decided only where the text is read (`JsonString.text`), and skipped text
may contain half of a surrogate pair.
-/

namespace HeapDomains

/-- What is wrong with a text. -/
inductive JsonFault where
  /-- Something stands where it may not. -/
  | malformed
  /-- The text ends too early. -/
  | cutShort
  deriving DecidableEq

/-- A number of a text. -/
inductive JsonNumber where
  /-- An integer from −2⁶³ to 2⁶⁴ − 1, written as one. -/
  | integer (n : Int)
  /-- Any other number that a double can hold, negative zero among them. -/
  | real
  /-- A number beyond the range of doubles. -/
  | excessive
  deriving DecidableEq

/-- A text between quotes. -/
structure JsonString where
  /-- What stands between the quotes, up to the fault. -/
  raw : List Char
  /-- Why there is no closing quote. -/
  fault : Option JsonFault
  deriving DecidableEq

/-- How a list or an object ends. -/
inductive JsonEnding where
  /-- With its bracket. -/
  | closed
  /-- With the end of the text after a comma. -/
  | comma
  /-- With a fault. -/
  | faulty (fault : JsonFault)
  deriving DecidableEq

/-- A value of a text, up to the first fault. -/
inductive JsonDraft where
  /-- The null value. -/
  | null
  /-- A truth value. -/
  | bool (b : Bool)
  /-- A number. -/
  | number (n : JsonNumber)
  /-- A text. -/
  | string (s : JsonString)
  /-- A list. -/
  | array (items : List JsonDraft) (ending : JsonEnding)
  /-- Named values; a name may be given twice. -/
  | object (members : List (JsonString × JsonDraft)) (ending : JsonEnding)
  /-- No value. -/
  | broken (fault : JsonFault)
  deriving Inhabited

/-- The fault of an ending where another item could stand. -/
def JsonEnding.fault? : JsonEnding → Option JsonFault
  | closed => none
  | comma => some .cutShort
  | faulty fault => some fault

namespace JsonString

/-- The value of a hexadecimal digit. -/
def hexValue? (c : Char) : Option Nat :=
  if '0' ≤ c ∧ c ≤ '9' then some (c.toNat - '0'.toNat)
  else if 'a' ≤ c ∧ c ≤ 'f' then some (c.toNat - 'a'.toNat + 10)
  else if 'A' ≤ c ∧ c ≤ 'F' then some (c.toNat - 'A'.toNat + 10)
  else none

/-- The value of four hexadecimal digits. -/
def hexUnit? (a b c d : Char) : Option Nat := do
  return (((← hexValue? a) * 16 + (← hexValue? b)) * 16 + (← hexValue? c)) * 16 + (← hexValue? d)

/-- The character that a letter stands for after a backslash. -/
def shortEscape? (c : Char) : Option Char :=
  match c with
  | '"' => some '"'
  | '\\' => some '\\'
  | '/' => some '/'
  | 'b' => some '\x08'
  | 'f' => some '\x0c'
  | 'n' => some '\n'
  | 'r' => some '\r'
  | 't' => some '\t'
  | _ => none

/-- The code units that a text between quotes stands for, up to an escape that is none. A unit is a
character or half of a surrogate pair. -/
def units : List Char → List Nat
  | '\\' :: 'u' :: a :: b :: c :: d :: rest =>
    match hexUnit? a b c d with
    | some unit => unit :: units rest
    | none => []
  | '\\' :: c :: rest =>
    match shortEscape? c with
    | some e => e.toNat :: units rest
    | none => []
  | ['\\'] => []
  | c :: rest => c.toNat :: units rest
  | [] => []

/-- Whether a unit is the first half of a surrogate pair. -/
def isLeading (unit : Nat) : Bool := 0xD800 ≤ unit && unit < 0xDC00

/-- Whether a unit is the second half of a surrogate pair. -/
def isTrailing (unit : Nat) : Bool := 0xDC00 ≤ unit && unit < 0xE000

/-- The character of a surrogate pair. -/
def pairChar (leading trailing : Nat) : Char :=
  Char.ofNat (0x10000 + (leading - 0xD800) * 0x400 + (trailing - 0xDC00))

/-- The characters of a list of units. Half of a pair is a fault: `atEnd` for a first half that is
the last unit, malformed for any other. -/
def characters (atEnd : JsonFault) : List Nat → Except JsonFault (List Char)
  | [] => .ok []
  | unit :: rest =>
    if isLeading unit then
      match rest with
      | [] => .error atEnd
      | trailing :: rest =>
        if isTrailing trailing then (characters atEnd rest).map (pairChar unit trailing :: ·)
        else .error .malformed
    else if isTrailing unit then .error .malformed
    else (characters atEnd rest).map (Char.ofNat unit :: ·)

/-- The text that stands between the quotes. -/
def text (s : JsonString) : Except JsonFault String :=
  match characters (s.fault.getD .malformed) (units s.raw), s.fault with
  | .error fault, _ => .error fault
  | .ok _, some fault => .error fault
  | .ok chars, none => .ok (String.ofList chars)

/-- The first fault met when the text is read. -/
def textFault? (s : JsonString) : Option JsonFault :=
  match s.text with
  | .ok _ => none
  | .error fault => some fault

end JsonString

namespace JsonDraft

mutual

/-- The first fault met when a value is skipped. -/
def fault? : JsonDraft → Option JsonFault
  | null | bool _ | number _ => none
  | string s => s.fault
  | array items ending => (faultOfItems? items).or ending.fault?
  | object members ending => (faultOfMembers? members).or ending.fault?
  | broken fault => some fault

/-- The first fault met when the items of a list are skipped. -/
def faultOfItems? : List JsonDraft → Option JsonFault
  | [] => none
  | item :: rest => (fault? item).or (faultOfItems? rest)

/-- The first fault met when named values are skipped. -/
def faultOfMembers? : List (JsonString × JsonDraft) → Option JsonFault
  | [] => none
  | (name, value) :: rest => (name.fault.or (fault? value)).or (faultOfMembers? rest)

end

/-- The number of lists and objects that may stand in one another. -/
def maxNesting : Nat := 127

mutual

/-- The first fault met when a value is read in full inside `depth` lists and objects: text has to
stand for characters, numbers have to fit a double, and values may not nest too deeply. -/
def fullFault? (depth : Nat) : JsonDraft → Option JsonFault
  | null | bool _ => none
  | number n => if n = .excessive then some .malformed else none
  | string s => s.textFault?
  | array items ending =>
    if maxNesting ≤ depth then some .malformed
    else (fullFaultOfItems? (depth + 1) items).or ending.fault?
  | object members ending =>
    if maxNesting ≤ depth then some .malformed
    else (fullFaultOfMembers? (depth + 1) members).or ending.fault?
  | broken fault => some fault

/-- The first fault met when the items of a list are read in full. -/
def fullFaultOfItems? (depth : Nat) : List JsonDraft → Option JsonFault
  | [] => none
  | item :: rest => (fullFault? depth item).or (fullFaultOfItems? depth rest)

/-- The first fault met when named values are read in full. -/
def fullFaultOfMembers? (depth : Nat) : List (JsonString × JsonDraft) → Option JsonFault
  | [] => none
  | (name, value) :: rest =>
    (name.textFault?.or (fullFault? depth value)).or (fullFaultOfMembers? depth rest)

end

/-- Puts a member into a list that is sorted by name, unless one of its name is there. -/
def insertMember (name : String) (member : JsonString × JsonDraft) :
    List (String × JsonString × JsonDraft) → List (String × JsonString × JsonDraft)
  | [] => [(name, member)]
  | e :: rest =>
    if name = e.1 then e :: rest
    else if name < e.1 then (name, member) :: e :: rest
    else e :: insertMember name member rest

mutual

/-- The draft of the value that a text without faults stands for: the members of an object are in
the order of their names, and the last of several with one name counts. -/
def canonical : JsonDraft → JsonDraft
  | array items ending => array (canonicalItems items) ending
  | object members ending => object ((canonicalMembers members).map (·.2)) ending
  | j => j

/-- The items of a list as the values they stand for. -/
def canonicalItems : List JsonDraft → List JsonDraft
  | [] => []
  | item :: rest => canonical item :: canonicalItems rest

/-- The members of an object as the values they stand for, with their names. -/
def canonicalMembers :
    List (JsonString × JsonDraft) → List (String × JsonString × JsonDraft)
  | [] => []
  | (key, value) :: rest =>
    insertMember (key.text.toOption.getD "") (key, canonical value) (canonicalMembers rest)

end

end JsonDraft

end HeapDomains
