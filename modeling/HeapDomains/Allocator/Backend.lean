import HeapDomains.Allocator.Memory
import HeapDomains.Word

/-!
# Heaps in memory

A backend makes heaps and serves blocks from them. It knows which heap owns each live block, counts
the live blocks and all allocations of every heap, and can be told to make no more heaps or to serve
nothing from one of them. Blocks are numbered in the order in which they are served, so a pointer to
a block that was freed never points to another one.

The memory for the blocks comes from a system allocator, which may have none at any time, and of
which the contents are not known unless zeros are asked for. So what it answers is a part of the
state that may change between any two requests (`Backend.setMemory`).
-/

namespace HeapDomains

/-- The name by which a heap is asked for blocks. -/
structure HeapHandle where
  /-- The address that stands for the heap. -/
  raw : Nat
  deriving DecidableEq

namespace HeapHandle

/-- The distance between the addresses of two handles. -/
def spacing : Nat := 16

/-- The handle of the heap that was made after `index` others. -/
def ofIndex (index : Nat) : HeapHandle := ⟨(index + 1) * spacing⟩

/-- The number of the heap that a handle stands for. -/
def index? (h : HeapHandle) : Option Nat :=
  if h.raw / spacing = 0 then none else some (h.raw / spacing - 1)

/-- The handle with an address, which is not null. -/
def ofRaw? (raw : Nat) : Option HeapHandle := if raw = 0 then none else some ⟨raw⟩

/-- The handle of a heap stands for that heap. -/
theorem index?_ofIndex (i : Nat) : (ofIndex i).index? = some i := by
  simp [index?, ofIndex, spacing]

end HeapHandle

/-- The state of a heap. -/
structure Heap where
  /-- Whether it serves nothing more. -/
  exhausted : Bool
  /-- How many of its blocks are live. -/
  liveBlocks : Nat
  /-- How many blocks it has served. -/
  totalAllocations : Nat
  deriving DecidableEq

/-- A live block. -/
structure Block where
  /-- Its number in the order of service. -/
  id : Nat
  /-- The number of the heap that owns it. -/
  heap : Nat
  /-- Its size in bytes. -/
  size : Nat
  /-- What it holds. -/
  contents : Contents

/-- A maker of heaps. -/
structure Backend where
  /-- The heaps in the order of their making. -/
  heaps : List Heap
  /-- The live blocks in the order of service. -/
  blocks : List Block
  /-- The number of the next block. -/
  nextBlock : Nat
  /-- Whether it makes no more heaps. -/
  refusesHeaps : Bool
  /-- What the system allocator answers when it is asked for a number of bytes: nothing, or memory
  that holds something. -/
  memory : Nat → Option Contents

namespace Backend

/-- The least number of bytes for which there is no memory at the start. -/
def sizeLimit : Nat := 1 <<< 62

/-- A backend without heaps. At the start the system allocator has memory, filled with zeros, unless
too much is asked for. -/
def empty : Backend :=
  ⟨[], [], 0, false, fun size => if size < sizeLimit then some Contents.zero else none⟩

instance : Inhabited Backend := ⟨empty⟩

/-- The number of heaps. -/
def heapsCreated (b : Backend) : Nat := b.heaps.length

/-- The state of a heap. -/
def heap? (b : Backend) (h : HeapHandle) : Option Heap := h.index?.bind (b.heaps[·]?)

/-- How many blocks of a heap are live. -/
def liveBlocks (b : Backend) (h : HeapHandle) : Nat := (b.heap? h).elim 0 (·.liveBlocks)

/-- How many blocks a heap has served. -/
def totalAllocations (b : Backend) (h : HeapHandle) : Nat :=
  (b.heap? h).elim 0 (·.totalAllocations)

/-- The live block that starts at a pointer. -/
def block? (b : Backend) (p : Pointer) : Option Block :=
  match p with
  | .block id 0 => b.blocks.find? (fun block => block.id == id)
  | _ => none

/-- The heap that owns the live block at a pointer. -/
def owner? (b : Backend) (p : Pointer) : Option HeapHandle :=
  (b.block? p).map fun block => .ofIndex block.heap

/-- The backend with a heap changed. -/
def modifyHeap (b : Backend) (index : Nat) (f : Heap → Heap) : Backend :=
  { b with heaps := b.heaps.modify index f }

/-- Makes a heap serve nothing more, or serve again. -/
def setExhausted (b : Backend) (h : HeapHandle) (on : Bool) : Backend :=
  match h.index? with
  | some index => b.modifyHeap index fun heap => { heap with exhausted := on }
  | none => b

/-- Makes the backend make no more heaps, or make them again. -/
def setRefusing (b : Backend) (on : Bool) : Backend := { b with refusesHeaps := on }

/-- Makes the system allocator answer otherwise from now on. -/
def setMemory (b : Backend) (memory : Nat → Option Contents) : Backend :=
  { b with memory := memory }

/-- Makes a heap. -/
def createHeap (b : Backend) : Backend × Option HeapHandle :=
  if b.refusesHeaps then (b, none)
  else ({ b with heaps := b.heaps ++ [⟨false, 0, 0⟩] }, some (.ofIndex b.heaps.length))

/-- The largest size that a block can be laid out with: rounded up to its alignment of 16 bytes, it
is at most the largest signed word. -/
def maxSize : Nat := (1 <<< 63) - 16

/-- Serves a block, which holds something, to a heap that can be had. A block of size zero has one
byte. -/
def serve (b : Backend) (index size : Nat) (contents : Contents) : Backend × Pointer :=
  let served : Backend :=
    { b with
      blocks := b.blocks ++ [⟨b.nextBlock, index, max size 1, contents⟩]
      nextBlock := b.nextBlock + 1 }
  (served.modifyHeap index fun heap =>
      { heap with
        liveBlocks := heap.liveBlocks + 1
        totalAllocations := heap.totalAllocations + 1 },
    .block b.nextBlock 0)

/-- Serves a block from a heap. Nothing is served from a heap that was not made or is exhausted, for
a size that no block can be laid out with, or when the system allocator has no memory. -/
def allocBlock (b : Backend) (h : HeapHandle) (size : Nat) (zeroed : Bool) : Backend × Pointer :=
  match h.index? with
  | none => (b, .null)
  | some index =>
    match b.heaps[index]? with
    | none => (b, .null)
    | some heap =>
      if heap.exhausted ∨ maxSize < size then (b, .null)
      else
        match b.memory (max size 1) with
        | none => (b, .null)
        | some contents => b.serve index size (if zeroed then Contents.zero else contents)

/-- Serves a block. -/
def alloc (b : Backend) (h : HeapHandle) (size : Nat) : Backend × Pointer :=
  b.allocBlock h size false

/-- Serves a block of zeros for a number of items, unless their size is too large for a word. -/
def allocZeroed (b : Backend) (h : HeapHandle) (count size : Nat) : Backend × Pointer :=
  match checkedMul count size with
  | some total => b.allocBlock h total true
  | none => (b, .null)

/-- Whether a live block starts at a pointer. -/
def isLive (b : Backend) (p : Pointer) : Bool := (b.block? p).isSome

/-- The backend without one of its blocks. -/
def dropBlock (b : Backend) (id : Nat) : Backend :=
  { b with blocks := b.blocks.filter (fun block => block.id != id) }

/-- Frees the live block at a pointer; nothing happens when there is none. -/
def free (b : Backend) (p : Pointer) : Backend :=
  match b.block? p with
  | none => b
  | some block =>
    (b.dropBlock block.id).modifyHeap block.heap fun heap =>
      { heap with liveBlocks := heap.liveBlocks - 1 }

/-- The backend with the contents of a block changed. -/
def modifyContents (b : Backend) (id : Nat) (f : Contents → Contents) : Backend :=
  { b with
    blocks := b.blocks.map fun block =>
      if block.id = id then { block with contents := f block.contents } else block }

/-- Moves the live block at a pointer into a new block of some size, with as much of its contents as
fits. Nothing happens when there is no such block or no new one is served. -/
def resize (b : Backend) (h : HeapHandle) (p : Pointer) (size : Nat) : Backend × Pointer :=
  if p.isNull then b.alloc h size
  else
    match b.block? p with
    | none => (b, .null)
    | some old =>
      match b.alloc h size with
      -- The old block is freed only after the new one was served.
      | (grown, .block id offset) =>
        ((grown.modifyContents id fun c => c.copy old.contents (min old.size size)).free p,
          .block id offset)
      | (b, _) => (b, .null)

/-- Stores bytes from a pointer on. -/
def write (b : Backend) (p : Pointer) (bytes : List UInt8) : Backend :=
  match p with
  | .block id offset => b.modifyContents id fun c => c.write offset.toNat bytes
  | _ => b

/-- The bytes from a pointer on. -/
def read (b : Backend) (p : Pointer) (count : Nat) : List UInt8 :=
  match p with
  | .block id offset =>
    match b.blocks.find? (fun block => block.id == id) with
    | some block => block.contents.read offset.toNat count
    | none => []
  | _ => []

end Backend

end HeapDomains
