import HeapDomains.Json.Draft
import HeapDomains.Text.Decimal
import HeapDomains.Word

/-!
# Reading JSON text

`JsonText.ofString` makes the draft of a text. A step of the reader consumes a character or ends, so
the length of the text bounds the number of steps.
-/

namespace HeapDomains

namespace JsonText

/-- Whether a character may stand between the tokens of a text. -/
def isBlank (c : Char) : Bool := c = ' ' || c = '\n' || c = '\t' || c = '\r'

/-- The text from the first character on that is not blank. -/
def skipBlank (text : List Char) : List Char := text.dropWhile isBlank

/-- Puts characters before what is known of a text between quotes. -/
def prepend (chars : List Char) (r : JsonString × List Char) : JsonString × List Char :=
  (⟨chars ++ r.1.raw, r.1.fault⟩, r.2)

/-- A text between quotes that ends with a fault. -/
def faultyString (raw : List Char) (fault : JsonFault) : JsonString × List Char :=
  (⟨raw, some fault⟩, [])

/-- The fault of an escape by number whose four digits are not there: the text is cut short when
less than four bytes of it are left. -/
def unitFault (rest : List Char) : JsonFault :=
  if (String.ofList rest).utf8ByteSize < 4 then .cutShort else .malformed

/-- The text after an opening quote up to the closing one, and what follows. -/
def scanString : List Char → JsonString × List Char
  | [] => faultyString [] .cutShort
  | ['\\'] => faultyString ['\\'] .cutShort
  | '\\' :: 'u' :: a :: b :: c :: d :: rest =>
    match JsonString.hexUnit? a b c d with
    | some _ => prepend ['\\', 'u', a, b, c, d] (scanString rest)
    | none => faultyString ['\\', 'u'] (unitFault (a :: b :: c :: d :: rest))
  | '\\' :: c :: rest =>
    if (JsonString.shortEscape? c).isSome then prepend ['\\', c] (scanString rest)
    else faultyString ['\\', c] (if c = 'u' then unitFault rest else .malformed)
  | c :: rest =>
    if c = '"' then (⟨[], none⟩, rest)
    else if c.toNat < 0x20 then faultyString [] .malformed
    else prepend [c] (scanString rest)

/-- The integer or other number that a sign, digits, digits after a point and an exponent stand for.
-/
def numberOf (negative : Bool) (digits : List Char) (fraction : Option (List Char))
    (exponent : Option Int) : JsonNumber :=
  let n := Nat.ofDigitChars 10 digits 0
  match fraction, exponent with
  | none, none =>
    if negative then
      if 0 < n ∧ n ≤ 1 <<< 63 then .integer (-n)
      else if exceedsDouble n 0 then .excessive else .real
    else if n < wordLimit then .integer n
    else if exceedsDouble n 0 then .excessive else .real
  | fraction, exponent =>
    let places := fraction.getD []
    let significand := Nat.ofDigitChars 10 (digits ++ places) 0
    if exceedsDouble significand (exponent.getD 0 - places.length) then .excessive else .real

/-- The digits at the start of a text, of which there has to be one, and what follows. -/
def scanDigits (text : List Char) : Except JsonFault (List Char × List Char) :=
  match text with
  | [] => .error .cutShort
  | c :: _ =>
    if c.isDigit then .ok (text.takeWhile Char.isDigit, text.dropWhile Char.isDigit)
    else .error .malformed

/-- The digits of an integer, which start with zero only when there is no other, and what follows.
-/
def scanInteger (text : List Char) : Except JsonFault (List Char × List Char) :=
  match scanDigits text with
  | .error fault => .error fault
  | .ok (digits, rest) =>
    if 1 < digits.length ∧ digits.head? = some '0' then .error .malformed else .ok (digits, rest)

/-- The digits after a point, if there is one, and what follows. -/
def scanFraction : List Char → Except JsonFault (Option (List Char) × List Char)
  | '.' :: rest => (scanDigits rest).map fun (digits, rest) => (some digits, rest)
  | text => .ok (none, text)

/-- The exponent, if there is one, and what follows. -/
def scanExponent : List Char → Except JsonFault (Option Int × List Char)
  | [] => .ok (none, [])
  | c :: rest =>
    if c = 'e' ∨ c = 'E' then
      let (isNegative, rest) :=
        match rest with
        | '-' :: rest => (true, rest)
        | '+' :: rest => (false, rest)
        | rest => (false, rest)
      (scanDigits rest).map fun (digits, rest) =>
        let n : Int := Nat.ofDigitChars 10 digits 0
        (some (if isNegative then -n else n), rest)
    else .ok (none, c :: rest)

/-- The number after its sign, and what follows. -/
def scanMagnitude (negative : Bool) (text : List Char) :
    Except JsonFault (JsonNumber × List Char) := do
  let (digits, rest) ← scanInteger text
  let (fraction, rest) ← scanFraction rest
  let (exponent, rest) ← scanExponent rest
  return (numberOf negative digits fraction exponent, rest)

/-- The number at the start of a text, and what follows. -/
def scanNumber : List Char → Except JsonFault (JsonNumber × List Char)
  | '-' :: rest => scanMagnitude true rest
  | text => scanMagnitude false text

/-- What follows a word at the start of a text. -/
def scanWord : List Char → List Char → Except JsonFault (List Char)
  | [], text => .ok text
  | _ :: _, [] => .error .cutShort
  | w :: word, c :: rest => if c = w then scanWord word rest else .error .malformed

/-- A value and what follows, or the fault at which reading stops. -/
def valueOr (r : Except JsonFault (JsonDraft × List Char)) : JsonDraft × Option (List Char) :=
  match r with
  | .ok (value, rest) => (value, some rest)
  | .error fault => (.broken fault, none)

/-- A text between quotes and what follows, unless it ends with a fault. -/
def restOf (r : JsonString × List Char) : Option (List Char) :=
  if r.1.fault.isNone then some r.2 else none

mutual

/-- The value at the start of a text, and what follows unless a fault was met. -/
def scanValue (fuel : Nat) (text : List Char) : JsonDraft × Option (List Char) :=
  match fuel, skipBlank text with
  | 0, _ => (.broken .malformed, none)
  | _, [] => (.broken .cutShort, none)
  | _, '"' :: rest =>
    let r := scanString rest
    (.string r.1, restOf r)
  | fuel + 1, '[' :: rest =>
    let (items, ending, rest) := scanArray fuel rest
    (.array items ending, rest)
  | fuel + 1, '\x7b' :: rest =>
    let (members, ending, rest) := scanObject fuel rest
    (.object members ending, rest)
  | _, c :: rest =>
    valueOr <|
      if c = 'n' then (scanWord "ull".toList rest).map (.null, ·)
      else if c = 't' then (scanWord "rue".toList rest).map (.bool true, ·)
      else if c = 'f' then (scanWord "alse".toList rest).map (.bool false, ·)
      else if c = '-' ∨ c.isDigit then
        (scanNumber (c :: rest)).map fun (n, rest) => (.number n, rest)
      else .error .malformed

/-- The items of a list after its opening bracket, how it ends, and what follows. -/
def scanArray (fuel : Nat) (text : List Char) :
    List JsonDraft × JsonEnding × Option (List Char) :=
  match fuel, skipBlank text with
  | 0, _ => ([], .faulty .malformed, none)
  | _, [] => ([], .faulty .cutShort, none)
  | _, ']' :: rest => ([], .closed, some rest)
  | fuel + 1, text => scanItems fuel text

/-- The items of a list from one of them on, how it ends, and what follows. -/
def scanItems (fuel : Nat) (text : List Char) :
    List JsonDraft × JsonEnding × Option (List Char) :=
  match fuel with
  | 0 => ([], .faulty .malformed, none)
  | fuel + 1 =>
    match scanValue fuel text with
    | (item, none) => ([item], .closed, none)
    | (item, some rest) =>
      match skipBlank rest with
      | [] => ([item], .faulty .cutShort, none)
      | ']' :: rest => ([item], .closed, some rest)
      | ',' :: rest =>
        match skipBlank rest with
        | [] => ([item], .comma, none)
        | ']' :: _ => ([item], .faulty .malformed, none)
        | rest =>
          let (items, ending, rest) := scanItems fuel rest
          (item :: items, ending, rest)
      | _ => ([item], .faulty .malformed, none)

/-- The members of an object after its opening brace, how it ends, and what follows. -/
def scanObject (fuel : Nat) (text : List Char) :
    List (JsonString × JsonDraft) × JsonEnding × Option (List Char) :=
  match fuel, skipBlank text with
  | 0, _ => ([], .faulty .malformed, none)
  | _, [] => ([], .faulty .cutShort, none)
  | _, '\x7d' :: rest => ([], .closed, some rest)
  | fuel + 1, '"' :: rest => scanMembers fuel rest
  | _, _ => ([], .faulty .malformed, none)

/-- The members of an object from the name of one of them on, how it ends, and what follows. -/
def scanMembers (fuel : Nat) (text : List Char) :
    List (JsonString × JsonDraft) × JsonEnding × Option (List Char) :=
  match fuel with
  | 0 => ([], .faulty .malformed, none)
  | fuel + 1 =>
    let (name, rest) := scanString text
    match name.fault, skipBlank rest with
    | some fault, _ => ([(name, .broken fault)], .closed, none)
    | none, [] => ([(name, .broken .cutShort)], .closed, none)
    | none, ':' :: rest =>
      match scanValue fuel rest with
      | (value, none) => ([(name, value)], .closed, none)
      | (value, some rest) =>
        match skipBlank rest with
        | [] => ([(name, value)], .faulty .cutShort, none)
        | '\x7d' :: rest => ([(name, value)], .closed, some rest)
        | ',' :: rest =>
          match skipBlank rest with
          | [] => ([(name, value)], .comma, none)
          | '"' :: rest =>
            let (members, ending, rest) := scanMembers fuel rest
            ((name, value) :: members, ending, rest)
          | _ => ([(name, value)], .faulty .malformed, none)
        | _ => ([(name, value)], .faulty .malformed, none)
    | none, _ => ([(name, .broken .malformed)], .closed, none)

end

end JsonText

/-- A text with one value at its start. -/
structure JsonText where
  /-- The value. -/
  value : JsonDraft
  /-- Whether anything but blanks follows it. -/
  hasMore : Bool

/-- The value of a text and whether anything follows it. -/
def JsonText.ofString (s : String) : JsonText :=
  match JsonText.scanValue (2 * s.length + 2) s.toList with
  | (value, none) => ⟨value, false⟩
  | (value, some rest) => ⟨value, !(JsonText.skipBlank rest).isEmpty⟩

end HeapDomains
