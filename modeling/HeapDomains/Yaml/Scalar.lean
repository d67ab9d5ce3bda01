import HeapDomains.Yaml.Text

/-!
# Reading scalars

The text of a plain, quoted or block scalar. Each reader answers what the scalar says, where it ends
and what follows it, or nothing when the scalar is not well formed.
-/

namespace HeapDomains.Yaml

/-- A scalar that was read. -/
structure ScalarRead where
  /-- What it says. -/
  text : List Char
  /-- Whether line breaks follow it. -/
  breaksFollow : Bool
  /-- Where it ends. -/
  place : Place
  /-- What follows it. -/
  rest : List Char
  deriving DecidableEq

/-- The scalar with characters put before it. -/
def ScalarRead.prepend (chars : List Char) (r : ScalarRead) : ScalarRead :=
  { r with text := chars ++ r.text }

/-- Whether a character ends a plain scalar inside braces. -/
def isFlowIndicator (c : Char) : Bool := c = ',' || c = '[' || c = ']' || c = '\x7b' || c = '\x7d'

/-- Whether a plain scalar ends before a character that follows a gap: at a document marker, at a
comment, or where the indentation ends. -/
def endsAfterGap (inFlow : Bool) (indent : Nat) (place : Place) (text : List Char) : Bool :=
  (place.column = 0 && startsWithMarker text) || text.head? == some '#' ||
    (!inFlow && place.column < indent)

/-- Whether a plain scalar ends before a colon or, inside braces, before an indicator. -/
def endsPlain (inFlow : Bool) (c : Char) (rest : List Char) : Bool :=
  (c = ':' && startsWithGap rest) || (inFlow && isFlowIndicator c)

/-- Whether a colon inside braces stands where it can be neither text nor the mark of a value. -/
def isMisplacedColon (inFlow : Bool) (c : Char) (rest : List Char) : Bool :=
  inFlow && c = ':' && rest.head?.any fun d => d = '?' || isFlowIndicator d

/-- A plain scalar. Its later lines have to be indented by `indent` columns outside braces, and
never by tabs. -/
def scanPlain (inFlow : Bool) (indent : Nat) (gap : Gap) (place : Place) :
    List Char → Option ScalarRead
  | [] => some ⟨[], gap.hasBreak, place, []⟩
  | c :: rest =>
    if isBlank c then
      if gap.hasBreak ∧ c = '\t' ∧ place.column < indent then none
      else scanPlain inFlow indent (gap.addBlank c) (place.right 1) rest
    else if isBreak c then scanPlain inFlow indent (gap.addBreak c) place.down rest
    else if gap.isSome ∧ endsAfterGap inFlow indent place (c :: rest) then
      some ⟨[], gap.hasBreak, place, c :: rest⟩
    else if isMisplacedColon inFlow c rest then none
    else if endsPlain inFlow c rest then some ⟨[], gap.hasBreak, place, c :: rest⟩
    else
      (scanPlain inFlow indent .nothing (place.right 1) rest).map (.prepend (gap.folded ++ [c]))

/-- A scalar between single quotes, after the first of them. A quote in it is written twice. -/
def scanSingleQuoted (gap : Gap) (place : Place) : List Char → Option ScalarRead
  | [] => none
  | '\'' :: '\'' :: rest =>
    if gap.isSome ∧ place.column = 0 ∧ startsWithMarker ('\'' :: '\'' :: rest) then none
    else (scanSingleQuoted .nothing (place.right 2) rest).map (.prepend (gap.folded ++ ['\'']))
  | c :: rest =>
    if isBlank c then scanSingleQuoted (gap.addBlank c) (place.right 1) rest
    else if isBreak c then scanSingleQuoted (gap.addBreak c) place.down rest
    else if gap.isSome ∧ place.column = 0 ∧ startsWithMarker (c :: rest) then none
    else if c = '\'' then some ⟨gap.folded, false, place.right 1, rest⟩
    else (scanSingleQuoted .nothing (place.right 1) rest).map (.prepend (gap.folded ++ [c]))

/-- The character that a letter stands for after a backslash. -/
def escapedChar? (c : Char) : Option Char :=
  match c with
  | '0' => some '\x00'
  | 'a' => some '\x07'
  | 'b' => some '\x08'
  | 't' | '\t' => some '\t'
  | 'n' => some '\n'
  | 'v' => some '\x0b'
  | 'f' => some '\x0c'
  | 'r' => some '\r'
  | 'e' => some '\x1b'
  | ' ' => some ' '
  | '"' => some '"'
  | '/' => some '/'
  | '\\' => some '\\'
  | 'N' => some '\x85'
  | '_' => some '\xa0'
  | 'L' => some '\u2028'
  | 'P' => some '\u2029'
  | _ => none

/-- The value of a hexadecimal digit. -/
def hexValue? (c : Char) : Option Nat :=
  if '0' ≤ c ∧ c ≤ '9' then some (c.toNat - '0'.toNat)
  else if 'a' ≤ c ∧ c ≤ 'f' then some (c.toNat - 'a'.toNat + 10)
  else if 'A' ≤ c ∧ c ≤ 'F' then some (c.toNat - 'A'.toNat + 10)
  else none

/-- A number with one more digit at its end. -/
def pushDigit? (base n : Nat) (c : Char) : Option Nat :=
  (hexValue? c).bind fun d => if d < base then some (base * n + d) else none

/-- The number that hexadecimal digits stand for. -/
def hexNumber? (digits : List Char) : Option Nat := digits.foldlM (pushDigit? 16) 0

/-- The character whose number hexadecimal digits give. -/
def hexChar? (digits : List Char) : Option Char :=
  (hexNumber? digits).bind fun n => if h : n.isValidChar then some (Char.ofNatAux n h) else none

/-- A scalar between double quotes, after the first of them. A backslash before a line break joins
two lines. -/
def scanDoubleQuoted (gap : Gap) (place : Place) : List Char → Option ScalarRead
  | [] => none
  | '\\' :: 'x' :: a :: b :: rest => do
    let c ← hexChar? [a, b]
    (scanDoubleQuoted .nothing (place.right 4) rest).map (.prepend (gap.folded ++ [c]))
  | '\\' :: 'u' :: a :: b :: c :: d :: rest => do
    let c ← hexChar? [a, b, c, d]
    (scanDoubleQuoted .nothing (place.right 6) rest).map (.prepend (gap.folded ++ [c]))
  | '\\' :: 'U' :: a :: b :: c :: d :: e :: f :: g :: h :: rest => do
    let c ← hexChar? [a, b, c, d, e, f, g, h]
    (scanDoubleQuoted .nothing (place.right 10) rest).map (.prepend (gap.folded ++ [c]))
  | '\\' :: c :: rest =>
    if isBreak c then (scanDoubleQuoted (.lines none []) place.down rest).map (.prepend gap.folded)
    else do
      let c ← escapedChar? c
      (scanDoubleQuoted .nothing (place.right 2) rest).map (.prepend (gap.folded ++ [c]))
  | c :: rest =>
    if isBlank c then scanDoubleQuoted (gap.addBlank c) (place.right 1) rest
    else if isBreak c then scanDoubleQuoted (gap.addBreak c) place.down rest
    else if gap.isSome ∧ place.column = 0 ∧ startsWithMarker (c :: rest) then none
    else if c = '"' then some ⟨gap.folded, false, place.right 1, rest⟩
    else if c = '\\' then none
    else (scanDoubleQuoted .nothing (place.right 1) rest).map (.prepend (gap.folded ++ [c]))

/-- What becomes of the line breaks at the end of a block scalar. -/
inductive Chomping where
  /-- All are dropped. -/
  | strip
  /-- The first is kept. -/
  | clip
  /-- All are kept. -/
  | keep
  deriving DecidableEq

/-- The chomping that a sign asks for. -/
def Chomping.ofSign? : Char → Option Chomping
  | '-' => some strip
  | '+' => some keep
  | _ => none

/-- The indentation that a digit asks for; zero is refused. -/
def indentOf? (c : Char) : Option Nat :=
  if c = '0' then none else some (c.toNat - '0'.toNat)

/-- What the first line of a block scalar says about chomping and indentation, and what follows. The
two signs come in either order. -/
def scanBlockHeader (text : List Char) : Option (Chomping × Option Nat × List Char) :=
  match text with
  | [] => some (.clip, none, [])
  | c :: rest =>
    match Chomping.ofSign? c with
    | some chomping =>
      match rest with
      | [] => some (chomping, none, [])
      | d :: more =>
        if d.isDigit then (indentOf? d).map fun n => (chomping, some n, more)
        else some (chomping, none, rest)
    | none =>
      if c.isDigit then
        (indentOf? c).map fun n =>
          match rest with
          | [] => (.clip, some n, [])
          | d :: more =>
            match Chomping.ofSign? d with
            | some chomping => (chomping, some n, more)
            | none => (.clip, some n, rest)
      else some (.clip, none, text)

/-- The rest of a line that holds nothing but blanks and a comment: the text after its break, and
whether there was one. -/
def scanLineEnd (text : List Char) : Option (Bool × List Char) :=
  let rest := text.dropWhile isBlank
  let rest := if rest.head? == some '#' then rest.dropWhile (fun c => !isBreak c) else rest
  match rest with
  | [] => some (false, [])
  | c :: rest => if isBreak c then some (true, rest) else none

/-- The line breaks before the next line of a block scalar. -/
structure BlockBreaks where
  /-- The breaks. -/
  breaks : List Char
  /-- The greatest column that was reached in front of one of them or of the next line. -/
  widest : Nat
  /-- Where the next line starts. -/
  place : Place
  /-- What follows. -/
  rest : List Char
  deriving DecidableEq

/-- The empty lines before the next line of a block scalar. Spaces of the indentation do not count;
where the indentation is not known, all spaces belong to it. A tab may not stand in it. -/
def scanBlockBreaks (indent : Option Nat) (place : Place) : List Char → Option BlockBreaks
  | [] => some ⟨[], place.column, place, []⟩
  | c :: rest =>
    let inIndent := indent.all fun n => place.column < n
    if inIndent ∧ c = ' ' then scanBlockBreaks indent (place.right 1) rest
    else if inIndent ∧ c = '\t' then none
    else if isBreak c then
      (scanBlockBreaks indent place.down rest).map fun r =>
        { r with breaks := c :: r.breaks, widest := max place.column r.widest }
    else some ⟨[], place.column, place, c :: rest⟩

/-- What stands between two lines of a folded scalar. A single line feed between two lines that do
not start with a blank becomes a space, and is dropped before further breaks. -/
def foldLines (fold : Bool) (lastBreak : Option Char) (breaks : List Char) : List Char :=
  if fold ∧ lastBreak = some '\n' then (if breaks.isEmpty then [' '] else breaks)
  else lastBreak.toList ++ breaks

/-- The line breaks that are left at the end of a block scalar. -/
def chomp (chomping : Chomping) (lastBreak : Option Char) (breaks : List Char) : List Char :=
  match chomping with
  | .strip => []
  | .clip => lastBreak.toList
  | .keep => lastBreak.toList ++ breaks

/-- The lines of a block scalar from a place on where a line or its end may stand. Lines that start
with a blank are not folded. -/
def scanBlockLines (isLiteral : Bool) (chomping : Chomping) (indent : Nat) :
    Nat → Option Char → Bool → BlockBreaks → Option ScalarRead
  | 0, _, _, _ => none
  | fuel + 1, lastBreak, lastBlank, before =>
    if before.place.column = indent ∧ before.rest ≠ [] then
      -- The line is not empty, so it starts with a blank or with text.
      let isBlankLine := startsWithGap before.rest
      let line := before.rest.takeWhile fun c => !isBreak c
      let rest := before.rest.dropWhile fun c => !isBreak c
      let between := foldLines (!isLiteral && !lastBlank && !isBlankLine) lastBreak before.breaks
      let atEnd := before.place.right line.length
      match rest with
      | [] =>
        (scanBlockLines isLiteral chomping indent fuel none isBlankLine
          ⟨[], 0, atEnd, []⟩).map (.prepend (between ++ line))
      | c :: rest => do
        let next ← scanBlockBreaks (some indent) atEnd.down rest
        (scanBlockLines isLiteral chomping indent fuel (some c) isBlankLine next).map
          (.prepend (between ++ line))
    else some ⟨chomp chomping lastBreak before.breaks, true, before.place, before.rest⟩

/-- A block scalar after its first character, where the node it belongs to is indented by `outer`
columns, if at all. Its indentation is given or that of the widest line before its text. -/
def scanBlock (isLiteral : Bool) (outer : Option Nat) (place : Place) (text : List Char) :
    Option ScalarRead := do
  let (chomping, increment, rest) ← scanBlockHeader text
  let (hasBreak, rest) ← scanLineEnd rest
  if hasBreak then
    let given := increment.map fun n => outer.getD 0 + n
    let before ← scanBlockBreaks given place.down rest
    let least := outer.elim 0 (· + 1)
    let indent := given.getD (max (max before.widest least) 1)
    scanBlockLines isLiteral chomping indent (text.length + 1) none false before
  else some ⟨[], true, place.right text.length, []⟩

end HeapDomains.Yaml
