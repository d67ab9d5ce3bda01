import HeapDomains.Allocator.Slot
import Mathlib.Order.Lattice

/-!
# Where a state puts its allocations

The search for an index that no tag owns ends at an index of its domain (`placementIndex_eq`), so
every slot that is selected exists. The domain depends on the state alone: `DomainState.IsExposed`
says which states select one that unsafe code may reach. A slot can be shared by states of one
domain only.
-/

namespace HeapDomains

variable {state state' : DomainState} {tag capacity steps index : Nat}

/-- A state whose allocations are to be out of the reach of unsafe code. -/
def DomainState.IsKept (state : DomainState) : Prop :=
  state.typeTag = 1 ∨ 2 ≤ state.typeTag ∧ state.flag = 0

/-- A state whose allocations unsafe code may reach. -/
def DomainState.IsExposed (state : DomainState) : Prop :=
  state.typeTag = 0 ∨ 2 ≤ state.typeTag ∧ state.flag ≠ 0

/-! ## Indices -/

/-- The search takes a reserved index up to the first one that is not, when it may take that many
steps and the tag is too large to wrap around. -/
theorem skipReserved_eq (htag : index < reservedSlots → reservedSlots < tag)
    (hsteps : reservedSlots ≤ index + steps) :
    skipReserved tag steps index = max reservedSlots index := by
  induction steps generalizing index with
  | zero => exact (max_eq_right hsteps).symm
  | succ steps ih =>
    rw [skipReserved]
    split
    · next hlt =>
      have hnext : (index + 1) % tag = index + 1 := Nat.mod_eq_of_lt (by have := htag hlt; omega)
      rw [hnext, ih (fun _ => htag hlt) (by omega), max_eq_left hlt, max_eq_left hlt.le]
    · next hge => rw [max_eq_right (not_lt.1 hge)]

/-- A tag that owns no index and leaves a reserved one reaches the capacity, so it is too large to
wrap around among the reserved indices. -/
theorem reservedSlots_lt_of_mod_lt (htag : 2 ≤ tag) (hcapacity : reservedSlots < capacity)
    (hlt : tag % capacity < reservedSlots) : reservedSlots < tag := by
  by_contra hle
  rw [Nat.mod_eq_of_lt (by omega)] at hlt
  exact absurd hlt (not_lt.2 htag)

/-- A tag that owns no index has the index that it leaves modulo the capacity, or the first one that
is not reserved when that one is. -/
theorem placementIndex_eq (htag : 2 ≤ tag) (hcapacity : reservedSlots < capacity) :
    placementIndex tag capacity = max reservedSlots (tag % capacity) :=
  skipReserved_eq (reservedSlots_lt_of_mod_lt htag hcapacity) (Nat.le_add_left _ _)

/-- A tag that owns no index has none that is reserved. -/
theorem reservedSlots_le_placementIndex (htag : 2 ≤ tag) (hcapacity : reservedSlots < capacity) :
    reservedSlots ≤ placementIndex tag capacity :=
  placementIndex_eq htag hcapacity ▸ le_max_left _ _

/-- A tag that owns no index has one of the domain. -/
theorem placementIndex_lt (htag : 2 ≤ tag) (hcapacity : reservedSlots < capacity) :
    placementIndex tag capacity < capacity := by
  rw [placementIndex_eq htag hcapacity]
  exact max_lt hcapacity (Nat.mod_lt _ (by omega))

/-! ## Slots -/

/-- All tags but the first two own no index. -/
theorem two_le_toNat_iff {tag : Word} : 2 ≤ tag.toNat ↔ tag ≠ 1 ∧ tag ≠ 0 := by
  bv_omega

/-- Every slot that is selected exists. -/
theorem selectSlot_index_lt (hcapacity : reservedSlots < capacity) (state : DomainState) :
    (selectSlot state capacity).index < capacity := by
  rw [selectSlot]
  split
  · exact lt_trans Nat.one_lt_two hcapacity
  · next hone =>
    split
    · exact lt_trans Nat.two_pos hcapacity
    · next hzero => exact placementIndex_lt (two_le_toNat_iff.2 ⟨hone, hzero⟩) hcapacity

/-- Allocations that are to be kept from unsafe code are. -/
theorem DomainState.IsKept.domain_selectSlot (h : state.IsKept) (capacity : Nat) :
    (selectSlot state capacity).domain = .safe := by
  rcases h with hone | ⟨htag, hflag⟩
  · rw [selectSlot, if_pos hone]
  · have hne := two_le_toNat_iff.1 (BitVec.le_def.1 htag)
    rw [selectSlot, if_neg hne.1, if_neg hne.2, if_pos hflag]

/-- Allocations that unsafe code may reach are in its domain. -/
theorem DomainState.IsExposed.domain_selectSlot (h : state.IsExposed) (capacity : Nat) :
    (selectSlot state capacity).domain = .exposed := by
  rcases h with hzero | ⟨htag, hflag⟩
  · rw [selectSlot, if_neg (by rw [hzero]; decide), if_pos hzero]
  · have hne := two_le_toNat_iff.1 (BitVec.le_def.1 htag)
    rw [selectSlot, if_neg hne.1, if_neg hne.2, if_neg hflag]

/-- So the two kinds of states never select the same slot. -/
theorem selectSlot_ne_of_isKept_of_isExposed (h : state.IsKept) (h' : state'.IsExposed) :
    selectSlot state capacity ≠ selectSlot state' capacity := by
  intro heq
  have hdomain := h.domain_selectSlot capacity
  rw [heq, h'.domain_selectSlot capacity] at hdomain
  cases hdomain

end HeapDomains
