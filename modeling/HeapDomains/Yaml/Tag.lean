import HeapDomains.Yaml.Scalar
import HeapDomains.Yaml.Token

/-!
# Tags and directives

A tag is written as a handle and the rest of its name, or in full between angle brackets. A
directive at the start of a document says for which version of the language the document is written,
or what a handle stands for.
-/

namespace HeapDomains.Yaml

/-- Whether a character is part of a tag. Commas and brackets are so only where nothing else can end
the tag. -/
def isTagChar (isWide : Bool) (c : Char) : Bool :=
  isWordChar c || ";/?:@&=+$.%!~*'()".toList.contains c || (isWide && ",[]".toList.contains c)

/-- The number of bytes of a character with a first byte in UTF-8, and the bits that the first byte
gives to its number. -/
def utf8Lead? (byte : Nat) : Option (Nat × Nat) :=
  if byte < 0x80 then some (1, byte)
  else if byte / 0x20 = 0x6 then some (2, byte % 0x20)
  else if byte / 0x10 = 0xE then some (3, byte % 0x10)
  else if byte / 0x8 = 0x1E then some (4, byte % 0x8)
  else none

/-- The later bytes of an escaped character, taken up into its number. -/
def scanTrailingBytes : Nat → Nat → List Char → Option (Nat × List Char)
  | 0, n, text => some (n, text)
  | count + 1, n, '%' :: a :: b :: rest => do
    let byte ← hexNumber? [a, b]
    if byte / 0x40 = 0x2 then scanTrailingBytes count (n * 0x40 + byte % 0x40) rest else none
  | _ + 1, _, _ => none

/-- A character of a tag that is written as its bytes, with a percent sign and two digits for each.
A number of no character gives the replacement character. -/
def scanEscapedChar (text : List Char) : Option (Char × List Char) :=
  match text with
  | '%' :: a :: b :: rest => do
    let (count, n) ← utf8Lead? (← hexNumber? [a, b])
    let (n, rest) ← scanTrailingBytes (count - 1) n rest
    some (if h : n.isValidChar then Char.ofNatAux n h else '\uFFFD', rest)
  | _ => none

/-- The characters of a tag at the start of a text, and what follows them. -/
def scanTagChars (isWide : Bool) : Nat → List Char → Option (List Char × List Char)
  | 0, text => some ([], text)
  | _ + 1, [] => some ([], [])
  | fuel + 1, c :: rest =>
    if c = '%' then do
      let (d, rest) ← scanEscapedChar (c :: rest)
      let (chars, rest) ← scanTagChars isWide fuel rest
      some (d :: chars, rest)
    else if isTagChar isWide c then do
      let (chars, rest) ← scanTagChars isWide fuel rest
      some (c :: chars, rest)
    else some ([], c :: rest)

/-- The characters of a tag, of which there has to be one at least. -/
def scanTagText (isWide : Bool) (text : List Char) : Option (List Char × List Char) := do
  let (chars, rest) ← scanTagChars isWide text.length text
  if chars.isEmpty then none else some (chars, rest)

/-- A tag after its exclamation mark, as its handle and the rest of its name, and what follows it. A
tag in angle brackets has an empty handle, and so has a tag of nothing but the mark. -/
def scanTag (text : List Char) : Option (String × String × List Char) :=
  match text with
  | '<' :: rest => do
    let (chars, rest) ← scanTagText true rest
    match rest with
    | '>' :: rest => some ("", String.ofList chars, rest)
    | _ => none
  | _ =>
    let word := text.takeWhile isWordChar
    match text.dropWhile isWordChar with
    | '!' :: rest => do
      let (chars, rest) ← scanTagText false rest
      some (String.ofList ('!' :: word ++ ['!']), String.ofList chars, rest)
    | _ => do
      let (chars, rest) ← scanTagChars false text.length text
      some (if chars.isEmpty then ("", "!", rest) else ("!", String.ofList chars, rest))

/-- Whether a text may follow a tag. -/
def endsTag (inFlow : Bool) (text : List Char) : Bool :=
  startsWithGap text || (inFlow && text.head? == some ',')

/-- The number at the start of a text, of nine digits at most. -/
def scanNumber (text : List Char) : Option (Nat × List Char) :=
  let digits := text.takeWhile Char.isDigit
  if digits.isEmpty ∨ 9 < digits.length then none
  else some (Nat.ofDigitChars 10 digits 0, text.dropWhile Char.isDigit)

/-- What a directive for the version says, after its name. -/
def scanVersion (text : List Char) : Option (Token × List Char) := do
  let (major, rest) ← scanNumber (text.dropWhile isBlank)
  match rest with
  | '.' :: rest => do
    let (minor, rest) ← scanNumber rest
    some (.version major minor, rest)
  | _ => none

/-- A handle: an exclamation mark, and perhaps a name between it and another one. -/
def scanHandle (text : List Char) : Option (List Char × List Char) :=
  match text with
  | '!' :: rest =>
    let word := rest.takeWhile isWordChar
    match rest.dropWhile isWordChar with
    | '!' :: more => some ('!' :: word ++ ['!'], more)
    | more => if word.isEmpty then some (['!'], more) else none
  | _ => none

/-- What a directive for a handle says, after its name. -/
def scanHandleMeaning (text : List Char) : Option (Token × List Char) := do
  let (handle, rest) ← scanHandle (text.dropWhile isBlank)
  if rest.head?.any isBlank then
    let (expansion, rest) ← scanTagText true (rest.dropWhile isBlank)
    if startsWithGap rest then
      some (.tagHandle (String.ofList handle) (String.ofList expansion), rest)
    else none
  else none

/-- A directive after its percent sign, up to the end of its line: the token, whether a line break
ended it, and what follows. There are only two directives. -/
def scanDirective (text : List Char) : Option (Token × Bool × List Char) := do
  let name := String.ofList (text.takeWhile isWordChar)
  let rest := text.dropWhile isWordChar
  let (token, rest) ←
    if !startsWithGap rest then none
    else if name = "YAML" then scanVersion rest
    else if name = "TAG" then scanHandleMeaning rest
    else none
  let (hasBreak, rest) ← scanLineEnd rest
  some (token, hasBreak, rest)

end HeapDomains.Yaml
