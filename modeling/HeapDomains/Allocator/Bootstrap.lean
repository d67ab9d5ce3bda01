import HeapDomains.Allocator.Error
import HeapDomains.Allocator.Memory
import HeapDomains.Word

/-!
# The bootstrap buffer

A small buffer that serves allocations before heaps can be made. Claims are cut from its free end in
steps of sixteen bytes; the release of the last live claim clears the buffer and makes all of it
available again.
-/

namespace HeapDomains

/-- A bootstrap buffer. -/
structure BootstrapBuffer where
  /-- What it holds. -/
  contents : Contents
  /-- Where its free end starts. -/
  cursor : Nat
  /-- How many claims were not yet released. -/
  liveClaims : Nat

namespace BootstrapBuffer

/-- The size of the buffer in bytes. -/
def capacity : Nat := 1024

/-- The number of bytes that the start of a claim is a multiple of. -/
def alignment : Nat := 16

/-- A buffer without claims. -/
def empty : BootstrapBuffer := ⟨Contents.zero, 0, 0⟩

instance : Inhabited BootstrapBuffer := ⟨empty⟩

/-- Whether a place at some distance from its start lies in the buffer. -/
def contains (offset : Int) : Bool := 0 ≤ offset && offset < capacity

/-- The number of bytes from a place to the end of the buffer, none outside it. -/
def remainingFrom (offset : Int) : Nat :=
  if contains offset then (capacity - offset).toNat else 0

/-- The place in the buffer that a pointer points to. -/
def place? : Pointer → Option Nat
  | .buffer offset => if contains offset then some offset.toNat else none
  | _ => none

/-- The size that a claim takes. -/
def rounded (size : Nat) : Nat := (max size 1 + (alignment - 1)) / alignment * alignment

/-- Claims bytes at the free end; the answer is where they start. -/
def claim (b : BootstrapBuffer) (size : Nat) : Except RuntimeError (BootstrapBuffer × Nat) :=
  if wordLimit ≤ rounded size then .error (.bootstrap size capacity)
  else if capacity - b.cursor < rounded size then .error (.bootstrap size (capacity - b.cursor))
  else
    .ok ({ b with cursor := b.cursor + rounded size, liveClaims := b.liveClaims + 1 }, b.cursor)

/-- Clears the buffer and gives up all claims. -/
def clear (_ : BootstrapBuffer) : BootstrapBuffer := empty

/-- Releases a claim. -/
def release (b : BootstrapBuffer) : BootstrapBuffer :=
  if b.liveClaims - 1 = 0 then b.clear else { b with liveClaims := b.liveClaims - 1 }

/-- Stores bytes from a place on. -/
def write (b : BootstrapBuffer) (start : Nat) (bytes : List UInt8) : BootstrapBuffer :=
  { b with contents := b.contents.write start bytes }

/-- The bytes from a place on. -/
def read (b : BootstrapBuffer) (start count : Nat) : List UInt8 := b.contents.read start count

end BootstrapBuffer

end HeapDomains
