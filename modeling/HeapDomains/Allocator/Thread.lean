import HeapDomains.Allocator.Basic

/-!
# Threads

Each thread has registers of its own, which start at zero, and an allocator of its own, which reads
them at every request. A tag guard holds the type tag from before it was entered, and leaving it
brings that tag back.
-/

namespace HeapDomains

/-- The registers of a thread. -/
structure Registers where
  /-- The flag. -/
  flag : Word
  /-- The type tag. -/
  typeTag : Word
  deriving DecidableEq

namespace Registers

/-- The registers of a new thread. -/
def initial : Registers := ⟨0, 0⟩

/-- What the registers say about the next allocation. -/
def state (r : Registers) : DomainState := ⟨r.typeTag, r.flag⟩

/-- The registers with the flag replaced. -/
def setFlag (r : Registers) (value : Word) : Registers := { r with flag := value }

/-- The registers with the type tag replaced. -/
def setTypeTag (r : Registers) (tag : Word) : Registers := { r with typeTag := tag }

end Registers

/-- A hold on the type tag. -/
structure TagGuard where
  /-- The tag from before. -/
  previous : Word
  deriving DecidableEq

namespace TagGuard

/-- Sets the type tag and keeps the one from before. -/
def enter (r : Registers) (tag : Word) : Registers × TagGuard := (r.setTypeTag tag, ⟨r.typeTag⟩)

/-- Brings the kept type tag back. -/
def leave (guard : TagGuard) (r : Registers) : Registers := r.setTypeTag guard.previous

end TagGuard

/-- Does something with the type tag set. -/
def Registers.withTypeTag {α : Type} (r : Registers) (tag : Word)
    (f : Registers → Registers × α) : Registers × α :=
  let (r, guard) := TagGuard.enter r tag
  let (r, result) := f r
  (guard.leave r, result)

/-- The type tags seen on entering and just before leaving each of several nested levels. -/
def Registers.nestedTags (r : Registers) : List Word → Registers × List Word
  | [] => (r, [])
  | tag :: rest => r.withTypeTag tag fun r =>
      let (after, inner) := r.nestedTags rest
      (after, r.typeTag :: inner ++ [after.typeTag])

/-- A thread that allocates. -/
structure AllocatingThread where
  /-- Its registers. -/
  registers : Registers
  /-- Its allocator. -/
  allocator : DomainAllocator defaultCapacity

namespace AllocatingThread

/-- A new thread. -/
def initial : AllocatingThread := ⟨.initial, .empty⟩

instance : Inhabited AllocatingThread := ⟨initial⟩

/-- The thread with its allocator changed, and the pointer that came of it. -/
def serve (t : AllocatingThread)
    (f : DomainAllocator defaultCapacity → DomainState →
      DomainAllocator defaultCapacity × Pointer) : AllocatingThread × Pointer :=
  ({ t with allocator := (f t.allocator t.registers.state).1 },
    (f t.allocator t.registers.state).2)

/-- Allocates a block. -/
def malloc (t : AllocatingThread) (size : Nat) : AllocatingThread × Pointer :=
  t.serve fun a state => a.allocate state size

/-- Allocates a block of zeros for a number of items. -/
def calloc (t : AllocatingThread) (count size : Nat) : AllocatingThread × Pointer :=
  t.serve fun a state => a.allocateZeroed state count size

/-- Moves what is at a pointer to a new place. -/
def realloc (t : AllocatingThread) (p : Pointer) (size : Nat) : AllocatingThread × Pointer :=
  t.serve fun a state => a.resize state p size

/-- Frees what is at a pointer. -/
def free (t : AllocatingThread) (p : Pointer) : AllocatingThread :=
  { t with allocator := t.allocator.free p }

/-- Starts the initialization of the allocator. -/
def beginInitialization (t : AllocatingThread) : AllocatingThread :=
  { t with allocator := t.allocator.beginInitialization }

/-- Ends the initialization of the allocator. -/
def finishInitialization (t : AllocatingThread) : Except RuntimeError AllocatingThread :=
  t.allocator.finishInitialization.map fun a => { t with allocator := a }

/-- The code that instrumented programs are told about the end of an initialization: zero, or minus
one when none was started. -/
def finishCode (outcome : Except RuntimeError AllocatingThread) : Int :=
  match outcome with
  | .ok _ => 0
  | .error _ => -1

end AllocatingThread

end HeapDomains
