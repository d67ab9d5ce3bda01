/-!
# Machine words

Flags, type tags and pointer masks are 64-bit words. A flag value is read as a set of bits, so words
are bit vectors; sizes, counts and offsets, which are only compared and added, are natural numbers
with the word size as an explicit bound.
-/

namespace HeapDomains

/-- A 64-bit machine word. -/
abbrev Word := BitVec 64

/-- The number of words: the least natural number that is none. -/
def wordLimit : Nat := UInt64.size

/-- The product of two sizes, unless it is too large for a word. -/
def checkedMul (a b : Nat) : Option Nat := if a * b < wordLimit then some (a * b) else none

/-- How many bits a word has. -/
def Word.width : Nat := 64

/-- The word with a single bit set. A shift that is not checked takes the number of the bit modulo
the width of a word. -/
def Word.bit (b : Nat) : Word := BitVec.twoPow 64 (b % Word.width)

/-- Whether a bit is set in a word, where the number of the bit is taken in the same way. -/
def Word.has (w : Word) (b : Nat) : Bool := w &&& Word.bit b != 0

end HeapDomains
