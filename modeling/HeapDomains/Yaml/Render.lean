import HeapDomains.Yaml.Plain
import HeapDomains.Yaml.Text

/-!
# Writing scalars

The form in which a text is written as the value of a key, and the text in that form. Lines of the
text are kept where that is possible, and quotes are used only where the text needs them.
-/

namespace HeapDomains.Yaml

/-- Whether a character is written as it is. -/
def isPrintable (c : Char) : Bool :=
  c = '\n' || (0x20 ≤ c.toNat && c.toNat ≤ 0x7E) ||
    (0xA0 ≤ c.toNat && c.toNat ≤ 0xFFFD && c ≠ '\uFEFF') || 0x10000 ≤ c.toNat

/-- Whether two characters that are next to each other pass these tests. -/
def hasNeighbours (first second : Char → Bool) : List Char → Bool
  | c :: d :: rest => (first c && second d) || hasNeighbours first second (d :: rest)
  | _ => false

/-- Whether a text starts in a way that has a meaning of its own. -/
def startsWithIndicator (text : List Char) : Bool :=
  match text with
  | '-' :: '-' :: '-' :: _ | '.' :: '.' :: '.' :: _ => true
  | c :: rest => isIndicator c || ((c = '?' || c = ':' || c = '-') && startsWithGap rest)
  | [] => false

/-- Whether a text has a space in front or at its end. -/
def hasOuterSpace (text : List Char) : Bool := text.head? == some ' ' || text.getLast? == some ' '

/-- Whether a text can be written without quotes: in one line, with no outer spaces, and with
nothing that starts something else or a comment or ends a key. -/
def allowsPlain (text : List Char) : Bool :=
  !text.isEmpty && text.all (fun c => isPrintable c && !isBreak c) && !hasOuterSpace text &&
    !startsWithIndicator text && !hasNeighbours (· = ':') (· = ' ') text &&
    !(text.getLast? == some ':') && !hasNeighbours (· = ' ') (· = '#') text

/-- Whether a text can be written between single quotes: with no space next to a line break. -/
def allowsSingle (text : List Char) : Bool :=
  text.all isPrintable && !hasNeighbours (· = ' ') isBreak text &&
    !hasNeighbours isBreak (· = ' ') text

/-- Whether a text can be written as lines: with no space at the end of one. -/
def allowsLines (text : List Char) : Bool :=
  text.all isPrintable && !hasNeighbours (· = ' ') isBreak text && !(text.getLast? == some ' ')

/-- How a text is written. -/
inductive Form where
  /-- As it is. -/
  | plain
  /-- Between single quotes. -/
  | single
  /-- Between double quotes, with escapes. -/
  | double
  /-- As lines that keep their breaks. -/
  | lines
  deriving DecidableEq

/-- The form of a text. A text with line feeds is written as lines, and a text that could be taken
for something else is quoted. -/
def Form.of (text : String) : Form :=
  let chars := text.toList
  if chars.contains '\n' then (if allowsLines chars then lines else double)
  else if allowsPlain chars && !isAmbiguous text then plain
  else if allowsSingle chars then single
  else double

/-- The digit of a number below sixteen. -/
def hexDigit (n : Nat) : Char := "0123456789ABCDEF".toList.getD n '0'

/-- The last digits of a number to base sixteen. -/
def hexDigits : Nat → Nat → List Char
  | 0, _ => []
  | count + 1, n => hexDigits count (n / 16) ++ [hexDigit (n % 16)]

/-- The letter that stands for a character after a backslash. -/
def escapeLetter? (c : Char) : Option Char :=
  match c with
  | '\x00' => some '0'
  | '\x07' => some 'a'
  | '\x08' => some 'b'
  | '\t' => some 't'
  | '\n' => some 'n'
  | '\x0b' => some 'v'
  | '\x0c' => some 'f'
  | '\r' => some 'r'
  | '\x1b' => some 'e'
  | '"' => some '"'
  | '\\' => some '\\'
  | '\x85' => some 'N'
  | '\u2028' => some 'L'
  | '\u2029' => some 'P'
  | _ => none

/-- A character between double quotes. -/
def escapeChar (c : Char) : List Char :=
  match escapeLetter? c with
  | some letter => ['\\', letter]
  | none =>
    if isPrintable c then [c]
    else if c.toNat ≤ 0xFF then '\\' :: 'x' :: hexDigits 2 c.toNat
    else if c.toNat ≤ 0xFFFF then '\\' :: 'u' :: hexDigits 4 c.toNat
    else '\\' :: 'U' :: hexDigits 8 c.toNat

/-- A text with every line that is not empty indented, from the start of a line or not. -/
def indentLines (columns : Nat) (atStart : Bool) : List Char → List Char
  | [] => []
  | c :: rest =>
    if isBreak c then c :: indentLines columns true rest
    else
      (if atStart then List.replicate columns ' ' else []) ++
        (c :: indentLines columns false rest)

/-- A text between single quotes. The lines after the first are indented, the last one even if it is
empty. -/
def singleQuoted (columns : Nat) (text : List Char) : List Char :=
  let doubled := text.flatMap fun c => if c = '\'' then ['\'', '\''] else [c]
  let last := if text.getLast?.any isBreak then List.replicate columns ' ' else []
  '\'' :: (indentLines columns false doubled ++ last ++ ['\''])

/-- A text between double quotes. -/
def doubleQuoted (text : List Char) : List Char := '"' :: (text.flatMap escapeChar ++ ['"'])

/-- What the first line of a text that is written as lines says: its indentation, if it starts with
a blank or a break, and what becomes of the breaks at its end. -/
def linesHeader (text : List Char) : List Char :=
  let indentation := if startsWithGap text then ['2'] else []
  let chomping :=
    match text.reverse with
    | c :: rest => if !isBreak c then ['-'] else if rest.head?.all isBreak then ['+'] else []
    | [] => ['-']
  '|' :: (indentation ++ chomping)

/-- A text as lines, up to the end of the last one. -/
def renderLines (columns : Nat) (text : List Char) : List Char :=
  linesHeader text ++ ('\n' :: indentLines columns true text) ++
    (if text.getLast?.any isBreak then [] else ['\n'])

/-- A text as the value of a key, up to the end of its line. Further lines are indented. -/
def renderScalar (columns : Nat) (text : String) : List Char :=
  match Form.of text with
  | .plain => text.toList ++ ['\n']
  | .single => singleQuoted columns text.toList ++ ['\n']
  | .double => doubleQuoted text.toList ++ ['\n']
  | .lines => renderLines columns text.toList

end HeapDomains.Yaml
