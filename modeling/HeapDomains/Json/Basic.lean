/-!
# JSON values

The values that are written as JSON, and their two written forms: `Json.compact` without any blank,
and `Json.pretty` with one member or item a line. Members are written in the order given.
-/

namespace HeapDomains

/-- A value that is written as JSON. -/
inductive Json where
  /-- The null value. -/
  | null
  /-- A truth value. -/
  | bool (b : Bool)
  /-- An integer. -/
  | int (n : Int)
  /-- A text. -/
  | str (s : String)
  /-- A list of values. -/
  | arr (items : List Json)
  /-- Named values. -/
  | obj (members : List (String × Json))
  deriving Inhabited

namespace Json

/-- A natural number as a value. -/
def nat (n : Nat) : Json := int n

/-- A value for each element of a list. -/
def list {α : Type} (f : α → Json) (l : List α) : Json := arr (l.map f)

/-- A value or null. -/
def option {α : Type} (f : α → Json) (o : Option α) : Json := o.elim null f

/-- The digit of a number below sixteen. -/
def hexDigit (n : Nat) : Char := "0123456789abcdef".toList.getD n '0'

/-- How a character stands in a quoted text. -/
def escapeChar (c : Char) : List Char :=
  if c = '"' then ['\\', '"']
  else if c = '\\' then ['\\', '\\']
  else if c = '\n' then ['\\', 'n']
  else if c = '\r' then ['\\', 'r']
  else if c = '\t' then ['\\', 't']
  else if c = '\x08' then ['\\', 'b']
  else if c = '\x0c' then ['\\', 'f']
  else if c.toNat < 0x20 then
    ['\\', 'u', '0', '0', hexDigit (c.toNat / 16), hexDigit (c.toNat % 16)]
  else [c]

/-- A text between quotes. -/
def quote (s : String) : List Char := '"' :: (s.toList.flatMap escapeChar ++ ['"'])

/-- The decimal digits of an integer, with its sign. -/
def decimal : Int → List Char
  | .ofNat n => Nat.toDigits 10 n
  | .negSucc n => '-' :: Nat.toDigits 10 (n + 1)

mutual

/-- A value without any blank. -/
def compactChars : Json → List Char
  | null => "null".toList
  | bool true => "true".toList
  | bool false => "false".toList
  | int n => decimal n
  | str s => quote s
  | arr items => '[' :: (compactItems items ++ [']'])
  | obj members => '{' :: (compactMembers members ++ ['}'])

/-- The items of a list with commas between them. -/
def compactItems : List Json → List Char
  | [] => []
  | [item] => compactChars item
  | item :: rest => compactChars item ++ ',' :: compactItems rest

/-- Named values with commas between them. -/
def compactMembers : List (String × Json) → List Char
  | [] => []
  | [(name, value)] => quote name ++ ':' :: compactChars value
  | (name, value) :: rest =>
    quote name ++ ':' :: (compactChars value ++ ',' :: compactMembers rest)

end

/-- A value as text without any blank. -/
def compact (j : Json) : String := String.ofList j.compactChars

/-- The start of a line at some depth. -/
def newline (depth : Nat) : List Char := '\n' :: List.replicate (2 * depth) ' '

mutual

/-- A value with each item and each member on a line of its own. -/
def prettyChars (depth : Nat) : Json → List Char
  | arr (item :: rest) =>
    '[' :: (prettyItems (depth + 1) (item :: rest) ++ (newline depth ++ [']']))
  | obj (member :: rest) =>
    '{' :: (prettyMembers (depth + 1) (member :: rest) ++ (newline depth ++ ['}']))
  | j => compactChars j

/-- The items of a list, each on a line of its own. -/
def prettyItems (depth : Nat) : List Json → List Char
  | [] => []
  | [item] => newline depth ++ prettyChars depth item
  | item :: rest => newline depth ++ (prettyChars depth item ++ ',' :: prettyItems depth rest)

/-- Named values, each on a line of its own. -/
def prettyMembers (depth : Nat) : List (String × Json) → List Char
  | [] => []
  | [(name, value)] => newline depth ++ (quote name ++ ':' :: ' ' :: prettyChars depth value)
  | (name, value) :: rest =>
    newline depth ++
      (quote name ++ ':' :: ' ' :: (prettyChars depth value ++ ',' :: prettyMembers depth rest))

end

/-- A value as text with each item and each member on a line of its own. -/
def pretty (j : Json) : String := String.ofList (j.prettyChars 0)

end Json

end HeapDomains
