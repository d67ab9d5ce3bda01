import HeapDomains.Text.Decimal
import HeapDomains.Yaml.Scalar

/-!
# What plain scalars say

A plain scalar may be null, a truth value or a number, and is a string otherwise. The forms are
those of the core schema, with signs in front of numbers of any base, and binary numbers.
-/

namespace HeapDomains.Yaml

/-- Whether a text says that there is no value. -/
def isNullText (text : String) : Bool := ["null", "Null", "NULL", "~"].contains text

/-- The truth value that a text stands for. -/
def boolOfText? (text : String) : Option Bool :=
  if ["true", "True", "TRUE"].contains text then some true
  else if ["false", "False", "FALSE"].contains text then some false
  else none

/-- The text of a truth value. -/
def boolText (b : Bool) : String := if b then "true" else "false"

/-- The number that digits of a base stand for; there has to be one at least. -/
def digitsNumber? (base : Nat) (digits : List Char) : Option Nat :=
  if digits.isEmpty then none else digits.foldlM (pushDigit? base) 0

/-- A text without a sign in front of it. -/
def dropSign (text : List Char) : List Char :=
  match text with
  | '+' :: rest | '-' :: rest => rest
  | _ => text

/-- Whether a text consists of decimal digits after a zero, and perhaps a sign. Such a text is a
string. -/
def isZeroPadded (text : List Char) : Bool :=
  match dropSign text with
  | '0' :: d :: rest => (d :: rest).all Char.isDigit
  | _ => false

/-- The number that a text without a sign stands for: hexadecimal, octal, binary, or decimal with no
zero in front. -/
def magnitude? (text : List Char) : Option Nat :=
  match text with
  | '0' :: 'x' :: digits => digitsNumber? 16 digits
  | '0' :: 'o' :: digits => digitsNumber? 8 digits
  | '0' :: 'b' :: digits => digitsNumber? 2 digits
  | _ => if isZeroPadded text then none else digitsNumber? 10 text

/-- The number that a text stands for, which may have a plus sign. -/
def natOfText? (text : List Char) : Option Nat :=
  match text with
  | '+' :: rest => magnitude? rest
  | _ => magnitude? text

/-- Whether a text is an integer of at most 128 bits. -/
def isInteger (text : List Char) : Bool :=
  match text with
  | '-' :: rest => (magnitude? rest).any fun n => n ≤ 1 <<< 127
  | _ => (natOfText? text).any fun n => n < 1 <<< 128

/-- The exponent at the end of a decimal number. -/
def exponentOf? (text : List Char) : Option Int :=
  match text with
  | [] => some 0
  | e :: rest =>
    if e = 'e' ∨ e = 'E' then
      match rest with
      | '-' :: digits => (digitsNumber? 10 digits).map fun n => -(n : Int)
      | '+' :: digits => (digitsNumber? 10 digits).map fun n => (n : Int)
      | digits => (digitsNumber? 10 digits).map fun n => (n : Int)
    else none

/-- Whether a text without a sign is a finite decimal number. -/
def isDecimal (text : List Char) : Bool :=
  let whole := text.takeWhile Char.isDigit
  let rest := text.dropWhile Char.isDigit
  let (fraction, rest) :=
    match rest with
    | '.' :: rest => (rest.takeWhile Char.isDigit, rest.dropWhile Char.isDigit)
    | _ => ([], rest)
  (digitsNumber? 10 (whole ++ fraction)).any fun significand =>
    (exponentOf? rest).any fun exponent => !exceedsDouble significand (exponent - fraction.length)

/-- Whether a text stands for a floating-point number. Infinity may have a sign; what is no number
may not. -/
def isFloat (text : List Char) : Bool :=
  [".inf", ".Inf", ".INF"].contains (String.ofList (dropSign text)) ||
    [".nan", ".NaN", ".NAN"].contains (String.ofList text) || isDecimal (dropSign text)

/-- Whether a text that is not quoted would be taken for something other than a string, or for a
number by other readers. -/
def isAmbiguous (text : String) : Bool :=
  text.isEmpty || isNullText text || (boolOfText? text).isSome || isInteger text.toList ||
    isZeroPadded text.toList || isFloat text.toList

end HeapDomains.Yaml
