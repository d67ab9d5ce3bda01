import HeapDomains.Ordered.Rank

/-!
# Identifiers

The entities of a program are named by 32-bit numbers. The kind of entity is part of the type, so a
function cannot be looked up by the number of an instruction; it also gives the mark that stands
before the number in messages.
-/

namespace HeapDomains

/-- The kinds of program entity that carry a number. -/
inductive IdKind where
  /-- A function. -/
  | function
  /-- A basic block. -/
  | block
  /-- An instruction. -/
  | instruction
  /-- A pointer-valued program value. -/
  | value
  /-- An abstract memory object of a points-to set. -/
  | object
  deriving DecidableEq

/-- The mark that stands before the number of an entity. -/
def IdKind.mark : IdKind → String
  | .function => "fn"
  | .block => "bb"
  | .instruction => "i"
  | .value => "v"
  | .object => "obj"

/-- The number of a program entity of one kind. -/
structure Id (k : IdKind) where
  /-- The number itself. -/
  raw : UInt32
  deriving DecidableEq

namespace Id

/-- The number of an entity as a natural number. -/
def toNat {k : IdKind} (i : Id k) : Nat := i.raw.toNat

/-- The entity with a given number, if the number has 32 bits. -/
def ofNat? (k : IdKind) (n : Nat) : Option (Id k) :=
  if n < UInt32.size then some ⟨UInt32.ofNat n⟩ else none

/-- Two entities of one kind with the same number are the same. -/
theorem toNat_inj {k : IdKind} {i j : Id k} (h : i.toNat = j.toNat) : i = j := by
  obtain ⟨i⟩ := i
  obtain ⟨j⟩ := j
  exact congrArg Id.mk (UInt32.toNat_inj.1 h)

/-- Reading the number of an entity gives the entity back. -/
theorem ofNat?_toNat {k : IdKind} (i : Id k) : ofNat? k i.toNat = some i := by
  obtain ⟨i⟩ := i
  simp [ofNat?, toNat, UInt32.toNat_lt_size]

instance {k : IdKind} : Ranked (Id k) where
  rank := toNat
  rank_inj _ _ h := toNat_inj h

instance {k : IdKind} : Inhabited (Id k) := ⟨⟨0⟩⟩

instance {k : IdKind} : ToString (Id k) := ⟨fun i => k.mark ++ toString i.toNat⟩

end Id

/-- The number of a function. -/
abbrev FunctionId := Id .function

/-- The number of a basic block. -/
abbrev BlockId := Id .block

/-- The number of an instruction, which is also the identity of a call site. -/
abbrev InstId := Id .instruction

/-- The number of a pointer value. -/
abbrev ValueId := Id .value

/-- The number of an abstract memory object. -/
abbrev ObjectId := Id .object

end HeapDomains
