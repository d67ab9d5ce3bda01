import HeapDomains.Word

/-!
# Benchmark logs

The measurements in the log of a benchmark run and their summary. A line holds a measurement when
the digits between its first `bench:` and the next `ns/iter` are a number of 64 bits; whatever else
stands between the two is passed over. `BenchSummary.ofLog` adds up the measurements of a log.
-/

namespace HeapDomains

/-- What stands before the first occurrence of a pattern and what stands after it. -/
def splitAtFirst? (pattern : List Char) : List Char → Option (List Char × List Char)
  | [] => if pattern.isEmpty then some ([], []) else none
  | c :: rest =>
    if pattern.isPrefixOf (c :: rest) then some ([], (c :: rest).drop pattern.length)
    else (splitAtFirst? pattern rest).map fun (before, after) => (c :: before, after)

/-- The text that stands before a measurement. -/
def benchMarker : List Char := "bench:".toList

/-- The text that stands after a measurement. -/
def unitMarker : List Char := "ns/iter".toList

/-- The measurement of a line. -/
def measurement? (line : List Char) : Option Nat := do
  let (_, rest) ← splitAtFirst? benchMarker line
  let (between, _) ← splitAtFirst? unitMarker rest
  let digits := between.filter Char.isDigit
  let value := Nat.ofDigitChars 10 digits 0
  if digits.isEmpty ∨ wordLimit ≤ value then none else some value

/-- The number of measurements and their sum. -/
structure BenchSummary where
  /-- The number of measurements. -/
  count : Nat
  /-- Their sum, or the largest word when the sum is larger. -/
  total : Nat
  deriving DecidableEq

namespace BenchSummary

/-- The summary of no measurements. -/
def empty : BenchSummary := ⟨0, 0⟩

instance : Inhabited BenchSummary := ⟨empty⟩

/-- The summary with one more measurement. -/
def add (s : BenchSummary) (value : Nat) : BenchSummary :=
  ⟨s.count + 1, min (s.total + value) (wordLimit - 1)⟩

/-- The mean of the measurements, rounded down; zero when there is none. -/
def average (s : BenchSummary) : Nat := s.total / max s.count 1

/-- The summary as it is shown. -/
def display (s : BenchSummary) : String :=
  "Count: " ++ toString s.count ++ ", Total: " ++ toString s.total ++ ", Average: " ++
    toString s.average

/-- The summary of measurements. -/
def ofValues (values : List Nat) : BenchSummary := values.foldl add empty

/-- The summary of the lines of a log. -/
def ofLines (lines : List (List Char)) : BenchSummary := ofValues (lines.filterMap measurement?)

/-- The lines of a text. -/
def linesOf (text : List Char) : List (List Char) := text.splitOn '\n'

/-- The summary of a log. -/
def ofLog (log : String) : BenchSummary := ofLines (linesOf log.toList)

/-- The summary of a log given as bytes, which have to be UTF-8. -/
def ofBytes? (bytes : ByteArray) : Option BenchSummary := (String.fromUTF8? bytes).map ofLog

/-- The reason why bytes that are not UTF-8 have no summary. -/
def notUtf8 : String := "stream did not contain valid UTF-8"

end BenchSummary

end HeapDomains
