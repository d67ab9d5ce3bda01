import HeapDomains.Ordered.Map
import HeapDomains.Error
import HeapDomains.Word

/-!
# Flag records

The call sites of one function that need a flag bit. The n-th distinct call site gets bit n, and
keeps it. Each call site also has the bits that a call made there has to raise for the function it
enters; their union is the argument mask.
-/

namespace HeapDomains

/-- The flagged call sites of one function and the bits each of them raises. -/
structure FlagRecord where
  /-- The function. -/
  function : FunctionId
  /-- The call sites in bit order: the one at position n owns bit n. -/
  callSites : List InstId
  /-- The bits of the function entered that a call has to raise. -/
  argBits : OrderedMap InstId (OrderedSet Nat)
  deriving DecidableEq

namespace FlagRecord

/-- The record of a function without flagged call sites. -/
def new (function : FunctionId) : FlagRecord := ⟨function, [], OrderedMap.empty⟩

/-- The bit of a call site. -/
def bit? (r : FlagRecord) (site : InstId) : Option Nat := r.callSites.idxOf? site

/-- Whether a call site has a bit. -/
def contains (r : FlagRecord) (site : InstId) : Bool := r.callSites.contains site

/-- The number of call sites with a bit. -/
def size (r : FlagRecord) : Nat := r.callSites.length

/-- Gives a call site the next bit unless it has one, and fails when all `max` bits are taken. -/
def assign (r : FlagRecord) (site : InstId) (max : UInt32) :
    Except InvariantViolation (FlagRecord × Nat) :=
  match r.bit? site with
  | some bit => .ok (r, bit)
  | none =>
    if r.size < max.toNat then .ok ({ r with callSites := r.callSites ++ [site] }, r.size)
    else .error (.flagBitsExhausted r.function max)

/-- Adds a bit to those a call site raises. -/
def addArgBit (r : FlagRecord) (site : InstId) (bit : Nat) : FlagRecord :=
  { r with
    argBits := r.argBits.modify site fun old => (old.getD OrderedSet.empty).insert bit }

/-- The bits a call site raises, in ascending order. -/
def argBitsOf (r : FlagRecord) (site : InstId) : OrderedSet Nat :=
  (r.argBits.get? site).getD OrderedSet.empty

/-- The bits a call site raises as a flag value. -/
def argMask (r : FlagRecord) (site : InstId) : Word :=
  (r.argBitsOf site).toList.foldl (fun mask bit => mask ||| Word.bit bit) 0

/-- Whether a call site raises a bit that words do not have. A shift that is checked has no result
then, and the call site has no mask. -/
def overflows (r : FlagRecord) (site : InstId) : Bool :=
  (r.argBitsOf site).toList.any (Word.width ≤ ·)

end FlagRecord

end HeapDomains
