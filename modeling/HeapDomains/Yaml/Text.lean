/-!
# Text of YAML documents

The classes of characters that YAML tells apart, places in a text, and the folding of line breaks.
Texts are read with their line breaks made uniform: a carriage return, alone or before a line feed,
and the next-line character all stand for a line feed, while the two separators of Unicode stay as
they are.
-/

namespace HeapDomains.Yaml

/-- Whether a character ends a line, once line breaks are uniform. -/
def isBreak (c : Char) : Bool := c = '\n' || c = '\u2028' || c = '\u2029'

/-- Whether a character is a space or a tab. -/
def isBlank (c : Char) : Bool := c = ' ' || c = '\t'

/-- Whether a character is part of a name. -/
def isWordChar (c : Char) : Bool := c.isAlphanum || c = '_' || c = '-'

/-- Whether a character has a meaning of its own at the start of a scalar. -/
def isIndicator (c : Char) : Bool :=
  [',', '[', ']', '\x7b', '\x7d', '#', '&', '*', '!', '|', '>', '\'', '"', '%', '@',
    '\x60'].contains c

/-- Whether a character may occur in a document. -/
def isReadable (c : Char) : Bool :=
  c = '\t' || c = '\n' || c = '\r' || c = '\x85' ||
    (0x20 ≤ c.toNat && c.toNat ≤ 0x7E) || (0xA0 ≤ c.toNat && c.toNat ≤ 0xFFFD) ||
    0x10000 ≤ c.toNat

/-- A text with uniform line breaks. -/
def uniformBreaks : List Char → List Char
  | [] => []
  | '\r' :: '\n' :: rest => '\n' :: uniformBreaks rest
  | c :: rest => (if c = '\r' ∨ c = '\x85' then '\n' else c) :: uniformBreaks rest

/-- Whether a text starts with a blank, a line break or its end. -/
def startsWithGap : List Char → Bool
  | [] => true
  | c :: _ => isBlank c || isBreak c

/-- Whether a text starts with three dashes or dots that stand alone. -/
def startsWithMarker : List Char → Bool
  | '-' :: '-' :: '-' :: rest => startsWithGap rest
  | '.' :: '.' :: '.' :: rest => startsWithGap rest
  | _ => false

/-- A place in a text. -/
structure Place where
  /-- The number of line breaks before it. -/
  line : Nat
  /-- The number of characters before it in its line. -/
  column : Nat
  deriving DecidableEq

namespace Place

/-- The place some characters further on in the same line. -/
def right (p : Place) (n : Nat) : Place := { p with column := p.column + n }

/-- The start of the next line. -/
def down (p : Place) : Place := ⟨p.line + 1, 0⟩

end Place

/-- What stands between two parts of the text of a scalar. -/
inductive Gap where
  /-- Blanks of one line. -/
  | blanks (chars : List Char)
  /-- Line breaks, with blanks that do not count. A first break that is given by an escape is
  missing. -/
  | lines (first : Option Char) (more : List Char)
  deriving DecidableEq

namespace Gap

/-- No gap. -/
def nothing : Gap := blanks []

/-- Whether anything stands in the gap. -/
def isSome : Gap → Bool
  | blanks chars => !chars.isEmpty
  | lines _ _ => true

/-- Whether the gap holds a line break. -/
def hasBreak : Gap → Bool
  | blanks _ => false
  | lines _ _ => true

/-- The gap with one more blank. -/
def addBlank (c : Char) : Gap → Gap
  | blanks chars => blanks (chars ++ [c])
  | lines first more => lines first more

/-- The gap with one more line break. -/
def addBreak (c : Char) : Gap → Gap
  | blanks _ => lines (some c) []
  | lines first more => lines first (more ++ [c])

/-- The text that a gap stands for. A single line feed becomes a space, and the first of several is
dropped; other breaks stay. -/
def folded : Gap → List Char
  | blanks chars => chars
  | lines none more => more
  | lines (some c) more => if c = '\n' then (if more.isEmpty then [' '] else more) else c :: more

end Gap

end HeapDomains.Yaml
