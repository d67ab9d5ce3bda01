/-!
# Pointers and contents

A pointer is known by what it was made from: the start of the bootstrap buffer or a block, and the
distance from there. So no address is ever compared with one of another block. Contents of memory
are bytes by position.
-/

namespace HeapDomains

/-- A pointer. -/
inductive Pointer where
  /-- The null pointer. -/
  | null
  /-- A place at some distance from the start of the bootstrap buffer. -/
  | buffer (offset : Int)
  /-- A place at some distance from the start of a block. -/
  | block (id : Nat) (offset : Int)
  /-- A place that no allocation gave. -/
  | foreign
  deriving DecidableEq

namespace Pointer

/-- The place at some distance from a pointer. -/
def shift (p : Pointer) (distance : Int) : Pointer :=
  match p with
  | null => if distance = 0 then null else foreign
  | buffer offset => buffer (offset + distance)
  | block id offset => block id (offset + distance)
  | foreign => foreign

/-- Whether a pointer is the null pointer. -/
def isNull (p : Pointer) : Bool := p == null

end Pointer

/-- The bytes of a piece of memory. -/
abbrev Contents := Nat → UInt8

namespace Contents

/-- Memory full of zeros. -/
def zero : Contents := fun _ => 0

/-- The bytes from a position on. -/
def read (c : Contents) (start count : Nat) : List UInt8 :=
  (List.range' start count).map c

/-- The memory after bytes were stored from a position on. -/
def write (c : Contents) (start : Nat) (bytes : List UInt8) : Contents :=
  fun i => if start ≤ i then (bytes[i - start]?).getD (c i) else c i

/-- The memory after the first bytes of another one were copied to its start. -/
def copy (c source : Contents) (count : Nat) : Contents :=
  fun i => if i < count then source i else c i

end Contents

end HeapDomains
