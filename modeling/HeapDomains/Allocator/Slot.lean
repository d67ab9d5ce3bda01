import HeapDomains.Word

/-!
# Heap slots

Which heap serves an allocation. Every thread has one heap for each index of the two domains. The
type tag chooses the index, the flag the domain: tag 0, of code that is not instrumented, belongs to
slot 0 of the unsafe domain, tag 1, of the smart-pointer interface, to slot 1 of the safe domain,
and all other tags share the indices from 2 on.
-/

namespace HeapDomains

/-- One of the two groups of heaps that are kept apart. -/
inductive Domain where
  /-- What unsafe code cannot reach. -/
  | safe
  /-- What unsafe code may reach. -/
  | exposed
  deriving DecidableEq

namespace Domain

/-- The name of a domain. -/
def name : Domain → String
  | safe => "safe"
  | exposed => "unsafe"

/-- The domain with a name. -/
def ofName? : String → Option Domain
  | "safe" => some safe
  | "unsafe" => some exposed
  | _ => none

end Domain

/-- What the registers of a thread hold when it allocates. -/
structure DomainState where
  /-- The type tag. -/
  typeTag : Word
  /-- The flag; any bit makes the allocation unsafe. -/
  flag : Word
  deriving DecidableEq

/-- The place of a heap. -/
structure DomainSlot where
  /-- Its domain. -/
  domain : Domain
  /-- Its index in the domain. -/
  index : Nat
  deriving DecidableEq

instance : ToString DomainSlot :=
  ⟨fun slot => slot.domain.name ++ "[" ++ toString slot.index ++ "]"⟩

/-- The number of heaps in each domain. -/
def defaultCapacity : Nat := 1024

/-- The number of indices at the start of a domain that belong to one type tag each. -/
def reservedSlots : Nat := 2

/-- Moves on from a reserved index, at most `steps` times. -/
def skipReserved (tag : Nat) : Nat → Nat → Nat
  | 0, index => index
  | steps + 1, index =>
    if index < reservedSlots then skipReserved tag steps ((index + 1) % tag) else index

/-- The index of a type tag that owns none: the tag modulo the capacity, moved on from the reserved
indices. From index 0 two steps are enough. -/
def placementIndex (tag capacity : Nat) : Nat := skipReserved tag reservedSlots (tag % capacity)

/-- The slot of the next allocation. -/
def selectSlot (state : DomainState) (capacity : Nat) : DomainSlot :=
  if state.typeTag = 1 then ⟨.safe, 1⟩
  else if state.typeTag = 0 then ⟨.exposed, 0⟩
  else
    ⟨if state.flag = 0 then .safe else .exposed, placementIndex state.typeTag.toNat capacity⟩

end HeapDomains
