import HeapDomains.Allocator.Backend
import HeapDomains.Allocator.Error

/-!
# Heap pools

A pool has a slot for each index of each domain. The heap of a slot is made when it is first asked
for, and stays.
-/

namespace HeapDomains

/-- A pool of heaps with some number of slots in each domain. -/
structure HeapPool (capacity : Nat) where
  /-- The maker of the heaps. -/
  backend : Backend
  /-- The slots that have a heap, in the order in which they were filled. -/
  filled : List (DomainSlot × HeapHandle)

/-- Why a pool gives no heap. -/
inductive PoolError where
  /-- There is no slot at this index of a domain with this many slots. -/
  | outOfRange (size index : Nat)
  /-- No heap could be made. -/
  | runtime (error : RuntimeError)
  deriving DecidableEq

/-- The wording of the reason why a pool gives no heap. -/
def PoolError.message : PoolError → String
  | outOfRange size index =>
    "index out of bounds: the len is " ++ toString size ++ " but the index is " ++ toString index
  | runtime error => error.message

namespace HeapPool

variable {capacity : Nat}

/-- A pool without heaps. -/
def empty : HeapPool capacity := ⟨Backend.empty, []⟩

instance : Inhabited (HeapPool capacity) := ⟨empty⟩

/-- The heap of a slot, if it was made. -/
def lookup (pool : HeapPool capacity) (slot : DomainSlot) : Option HeapHandle :=
  pool.filled.lookup slot

/-- The heap of a slot, if it was made; the slot has to exist. -/
def get (pool : HeapPool capacity) (slot : DomainSlot) : Except PoolError (Option HeapHandle) :=
  if slot.index < capacity then .ok (pool.lookup slot)
  else .error (.outOfRange capacity slot.index)

/-- The heap of a slot, which is made on first use. -/
def heapFor (pool : HeapPool capacity) (slot : DomainSlot) :
    Except PoolError (HeapPool capacity × HeapHandle) := do
  match ← pool.get slot with
  | some heap => return (pool, heap)
  | none =>
    match pool.backend.createHeap with
    | (backend, some heap) => return (⟨backend, pool.filled ++ [(slot, heap)]⟩, heap)
    | (_, none) => throw (.runtime (.heapCreation slot))

/-- The heap of the next allocation. -/
def heapForState (pool : HeapPool capacity) (state : DomainState) :
    Except PoolError (HeapPool capacity × HeapHandle) :=
  pool.heapFor (selectSlot state capacity)

/-- The number of heaps in a domain. -/
def created (pool : HeapPool capacity) (domain : Domain) : Nat :=
  pool.filled.countP (fun entry => entry.1.domain == domain)

/-- The slot of a heap. -/
def slotOf? (pool : HeapPool capacity) (heap : HeapHandle) : Option DomainSlot :=
  (pool.filled.find? (fun entry => entry.2 == heap)).map Prod.fst

end HeapPool

end HeapDomains
