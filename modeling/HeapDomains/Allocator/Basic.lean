import HeapDomains.Allocator.Bootstrap
import HeapDomains.Allocator.Pool

/-!
# Domain allocators

An allocator serves each request from the heap of the slot that the registers select, and from no
other: a request that fails there fails. While it is being initialized, the bootstrap buffer serves
everything.
-/

namespace HeapDomains

/-- An allocator with some number of slots in each domain. -/
structure DomainAllocator (slots : Nat) where
  /-- The heaps. -/
  pool : HeapPool slots
  /-- The buffer that serves requests during the initialization. -/
  bootstrap : BootstrapBuffer
  /-- Whether it is being initialized. -/
  initializing : Bool

namespace DomainAllocator

variable {slots : Nat}

/-- An allocator without heaps. -/
def empty : DomainAllocator slots := ⟨HeapPool.empty, BootstrapBuffer.empty, false⟩

instance : Inhabited (DomainAllocator slots) := ⟨empty⟩

/-- The backend of the heaps. -/
def backend (a : DomainAllocator slots) : Backend := a.pool.backend

/-- The allocator with its backend replaced. -/
def setBackend (a : DomainAllocator slots) (b : Backend) : DomainAllocator slots :=
  { a with pool := { a.pool with backend := b } }

/-- Starts the initialization. -/
def beginInitialization (a : DomainAllocator slots) : DomainAllocator slots :=
  { a with initializing := true }

/-- Ends the initialization, which has to have been started. -/
def finishInitialization (a : DomainAllocator slots) :
    Except RuntimeError (DomainAllocator slots) :=
  if a.initializing then .ok { a with initializing := false }
  else .error (.config "finish_initialization called while not initializing")

/-- The slot of the next allocation. -/
def slotFor (_ : DomainAllocator slots) (state : DomainState) : DomainSlot :=
  selectSlot state slots

/-- The heap of the next allocation, made on first use. -/
def heap (a : DomainAllocator slots) (state : DomainState) :
    DomainAllocator slots × Option HeapHandle :=
  match a.pool.heapForState state with
  | .ok (pool, heap) => ({ a with pool := pool }, some heap)
  | .error _ => (a, none)

/-- Claims bytes of the bootstrap buffer. -/
def claimBootstrap (a : DomainAllocator slots) (size : Nat) : DomainAllocator slots × Pointer :=
  match a.bootstrap.claim size with
  | .ok (bootstrap, start) => ({ a with bootstrap := bootstrap }, .buffer start)
  | .error _ => (a, .null)

/-- Has the heap of the next allocation do something. -/
def serve (a : DomainAllocator slots) (state : DomainState)
    (f : Backend → HeapHandle → Backend × Pointer) : DomainAllocator slots × Pointer :=
  match a.heap state with
  | (a, some heap) => (a.setBackend (f a.backend heap).1, (f a.backend heap).2)
  | (a, none) => (a, .null)

/-- Allocates a block. -/
def allocate (a : DomainAllocator slots) (state : DomainState) (size : Nat) :
    DomainAllocator slots × Pointer :=
  if a.initializing then a.claimBootstrap size
  else a.serve state fun backend heap => backend.alloc heap size

/-- Allocates a block of zeros for a number of items. Claims are made of zeros already, since they
come from a part of the buffer that was cleared. -/
def allocateZeroed (a : DomainAllocator slots) (state : DomainState) (count size : Nat) :
    DomainAllocator slots × Pointer :=
  if a.initializing then
    match checkedMul count size with
    | some total => a.claimBootstrap total
    | none => (a, .null)
  else a.serve state fun backend heap => backend.allocZeroed heap count size

/-- Frees what is at a pointer: a claim when the pointer lies in the bootstrap buffer, else the live
block that starts there. -/
def free (a : DomainAllocator slots) (p : Pointer) : DomainAllocator slots :=
  match BootstrapBuffer.place? p with
  | some _ => { a with bootstrap := a.bootstrap.release }
  | none => a.setBackend (a.backend.free p)

/-- Stores bytes from a pointer on. -/
def write (a : DomainAllocator slots) (p : Pointer) (bytes : List UInt8) : DomainAllocator slots :=
  match BootstrapBuffer.place? p with
  | some start => { a with bootstrap := a.bootstrap.write start bytes }
  | none => a.setBackend (a.backend.write p bytes)

/-- The bytes from a pointer on. -/
def read (a : DomainAllocator slots) (p : Pointer) (count : Nat) : List UInt8 :=
  match BootstrapBuffer.place? p with
  | some start => a.bootstrap.read start count
  | none => a.backend.read p count

/-- Moves a claim to a new place of some size. What is copied reaches to the end of the buffer or of
the new place, whichever is nearer. -/
def resizeClaim (a : DomainAllocator slots) (state : DomainState) (start size : Nat) :
    DomainAllocator slots × Pointer :=
  match a.allocate state size with
  | (a, .null) => (a, .null)
  | (a, p) =>
    let copied := a.bootstrap.read start (min (BootstrapBuffer.remainingFrom start) size)
    ((a.write p copied).free (.buffer start), p)

/-- Moves what is at a pointer to a new place of some size. Null is allocated for, and nothing is
given up when there is no new place. -/
def resize (a : DomainAllocator slots) (state : DomainState) (p : Pointer) (size : Nat) :
    DomainAllocator slots × Pointer :=
  if p.isNull then a.allocate state size
  else
    match BootstrapBuffer.place? p with
    | some start => a.resizeClaim state start size
    | none => a.serve state fun backend heap => backend.resize heap p size

end DomainAllocator

end HeapDomains
