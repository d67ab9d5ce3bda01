import HeapDomains.Proofs.Allocator.Ledger

/-!
# Live blocks stay where their states route them

Whatever is done with an allocator that has more slots than are reserved, nothing panics, and every
live block is owned by the heap of the slot that the state of its request selects
(`routesBlocks_of_run`). So heaps are shared by requests that select the same slot only, and what is
to be kept from unsafe code shares none with what it may reach. This is read off the ledger, which
is in order after every run.

Counters do not wrap around here: to make one of them do so, a word full of requests would have to
be served.
-/

namespace HeapDomains

variable {slots : Nat} {l : Ledger slots}

/-- An event at which an allocator would panic or would not come to an end. -/
inductive DomainAllocator.Panics (a : DomainAllocator slots) : AllocatorEvent → Prop
  /-- The slot that is selected does not exist. -/
  | slot {e : AllocatorEvent} {state : DomainState} {size index : Nat} :
    e.state? = some state → a.pool.heapForState state = .error (.outOfRange size index) → Panics a e
  /-- The search for an index that no tag owns has not passed the reserved ones. -/
  | search {e : AllocatorEvent} {state : DomainState} :
    e.state? = some state → 2 ≤ state.typeTag →
    placementIndex state.typeTag.toNat slots < reservedSlots → Panics a e
  /-- Less than nothing is left of the bootstrap buffer. -/
  | room {e : AllocatorEvent} {state : DomainState} :
    e.state? = some state → BootstrapBuffer.capacity < a.bootstrap.cursor → Panics a e
  /-- The heap of a block that is given back counts no live block. -/
  | free {p : Pointer} : a.backend.Underflows p → Panics a (.free p)
  /-- The heap of a block that is moved counts no live block, after the new one was served. -/
  | move {state : DomainState} {p : Pointer} {size : Nat} {pool : HeapPool slots}
    {k : HeapHandle} :
    a.pool.heapForState state = .ok (pool, k) → (pool.backend.alloc k size).1.Underflows p →
    Panics a (.resize state p size)

/-- All that is said of the live blocks of an allocator. -/
structure Ledger.RoutesBlocks (l : Ledger slots) : Prop where
  /-- Nothing that can be done next panics. -/
  not_panics : ∀ e, ¬ l.allocator.Panics e
  /-- A block is owned by the heap that the pool has for the slot that its state selects. -/
  owner?_eq : ∀ g ∈ l.grants, g.place? = none →
    ∃ k, l.allocator.pool.get (selectSlot g.state slots) = .ok (some k) ∧
      l.allocator.backend.owner? g.pointer = some k
  /-- Two blocks have the same owner exactly when their states select the same slot. -/
  owner?_eq_iff : ∀ g ∈ l.grants, g.place? = none → ∀ g' ∈ l.grants, g'.place? = none →
    (l.allocator.backend.owner? g.pointer = l.allocator.backend.owner? g'.pointer ↔
      selectSlot g.state slots = selectSlot g'.state slots)
  /-- What is to be kept from unsafe code has another owner than what it may reach. -/
  owner?_ne : ∀ g ∈ l.grants, g.place? = none → ∀ g' ∈ l.grants, g'.place? = none →
    g.state.IsKept → g'.state.IsExposed →
    l.allocator.backend.owner? g.pointer ≠ l.allocator.backend.owner? g'.pointer

namespace Ledger.WellFormed

/-- In an allocator with more slots than are reserved nothing panics. -/
theorem not_panics (h : l.WellFormed) (hslots : reservedSlots < slots) (e : AllocatorEvent) :
    ¬ l.allocator.Panics e := by
  intro hpanics
  cases hpanics with
  | slot _ herror =>
    -- The one error of a slot that exists is that no heap can be made.
    have hreason := (HeapPool.heapFor_eq_error (selectSlot_index_lt hslots _) herror).2.2
    cases hreason
  | search _ htag hindex =>
    have hle := reservedSlots_le_placementIndex (BitVec.le_def.1 htag) hslots
    exact absurd hindex (not_lt.2 hle)
  | room _ hroom => exact absurd hroom (not_lt.2 h.bootstrap.cursor_le)
  | free hunderflows => exact h.backend.not_underflows _ hunderflows
  | @move state p size pool k hk hunderflows =>
    have hbackend := (h.provide hk).backend
    rcases pool.backend.alloc_cases k size with hnone | ⟨i, c, hi, hserved⟩
    · rw [hnone] at hunderflows
      exact hbackend.not_underflows _ hunderflows
    · rw [hserved] at hunderflows
      exact (hbackend.serve hi.lt size c).not_underflows _ hunderflows

/-- In a ledger that is in order, blocks have the same owner exactly when they share a slot. -/
theorem owner?_eq_iff (h : l.WellFormed) {g g' : Grant} (hg : g ∈ l.grants)
    (hplace : g.place? = none) (hg' : g' ∈ l.grants) (hplace' : g'.place? = none) :
    l.allocator.backend.owner? g.pointer = l.allocator.backend.owner? g'.pointer ↔
      selectSlot g.state slots = selectSlot g'.state slots := by
  obtain ⟨k, hk, howned⟩ := h.routed g hg hplace
  obtain ⟨k', hk', howned'⟩ := h.routed g' hg' hplace'
  change l.allocator.pool.backend.owner? _ = l.allocator.pool.backend.owner? _ ↔ _
  rw [howned, howned', Option.some_inj]
  constructor
  · rintro rfl
    exact h.pool.lookup_injective hk hk'
  · intro hslot
    rw [hslot, hk'] at hk
    exact (Option.some.inj hk).symm

end Ledger.WellFormed

/-- After every run of a new allocator with more slots than are reserved, nothing panics and all
live blocks are where their states route them. -/
theorem routesBlocks_of_run (hslots : reservedSlots < slots) (events : List AllocatorEvent)
    (hrun : Ledger.empty.run events = some l) : l.RoutesBlocks := by
  have h := Ledger.wellFormed_of_run hrun
  refine ⟨h.not_panics hslots, ?_, fun g hg hplace g' hg' hplace' =>
    h.owner?_eq_iff hg hplace hg' hplace', ?_⟩
  · intro g hg hplace
    obtain ⟨k, hk, howned⟩ := h.routed g hg hplace
    refine ⟨k, ?_, howned⟩
    rw [HeapPool.get_eq_ok (selectSlot_index_lt hslots _), hk]
  · intro g hg hplace g' hg' hplace' hkept hexposed howner
    exact selectSlot_ne_of_isKept_of_isExposed hkept hexposed
      ((h.owner?_eq_iff hg hplace hg' hplace').1 howner)

/-- A run in which a claim and a block move, a heap is refused and another one is exhausted. -/
def migration : List AllocatorEvent :=
  [.beginInitialization,
    .allocate ⟨5, 0⟩ 24,
    .store (.buffer 0) 0 [9, 8],
    .finishInitialization,
    .resize ⟨5, 0⟩ (.buffer 0) 40,
    .allocate ⟨0, 7⟩ 8,
    .allocateZeroed ⟨7, 4⟩ 2 8,
    .refuseHeaps true,
    .allocate ⟨1, 0⟩ 16,
    .refuseHeaps false,
    .exhaust (.ofIndex 1) true,
    .resize ⟨0, 7⟩ (.block 1 0) 64,
    .resize ⟨1, 0⟩ (.block 1 0) 64,
    .free (.block 2 0),
    .allocate ⟨8, 0⟩ 1]

/-- Two blocks of one slot and one that has come to another domain are live in the end. -/
theorem routesBlocks_migration :
    reservedSlots < 3 ∧ ∃ l : Ledger 3,
      Ledger.empty.run migration = some l ∧ l.RoutesBlocks ∧
        l.grants = [⟨.block 0 0, ⟨5, 0⟩, 40⟩, ⟨.block 3 0, ⟨1, 0⟩, 64⟩, ⟨.block 4 0, ⟨8, 0⟩, 1⟩] :=
  ⟨by decide, _, rfl, routesBlocks_of_run (by decide) migration rfl, rfl⟩

end HeapDomains
