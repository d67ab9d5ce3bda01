import HeapDomains.Proofs.Allocator.Claims

/-!
# While an allocator is being initialized

Every call of an allocator keeps to the bootstrap buffer while it is being initialized, with one
exception: what moves a block that is held goes to the heap of its state, as it does at any other
time (`keepsToBuffer_of_initializing`). Blocks can be held then, since an initialization may start
at any time; to move one may even make a heap (`exists_heap_made_while_initializing`).
-/

namespace HeapDomains

open BootstrapBuffer (place?)

variable {slots : Nat} {a a' : DomainAllocator slots} {l : Ledger slots} {e : AllocatorEvent}
  {g : Grant} {state : DomainState} {p q : Pointer} {size start : Nat}

/-- The answer to a call, if an event is one: the allocator after it and the pointer given. -/
def Ledger.answer? (l : Ledger slots) : AllocatorEvent → Option (DomainAllocator slots × Pointer)
  | .allocate state size => some (l.allocator.allocate state size)
  | .allocateZeroed state count size => some (l.allocator.allocateZeroed state count size)
  | .resize state p size => some (l.allocator.resize state p size)
  | .free p => some (l.allocator.free p, .null)
  | _ => none

/-- An event is to move a block that is held. -/
def Ledger.MovesBlock (l : Ledger slots) (e : AllocatorEvent) : Prop :=
  ∃ g ∈ l.grants, g.place? = none ∧ ∃ state size, e = .resize state g.pointer size

/-- An answer that no heap has a part in. -/
structure DomainAllocator.KeepsToBuffer (a a' : DomainAllocator slots) (q : Pointer) : Prop where
  /-- No slot is given a heap. -/
  filled_eq : a'.pool.filled = a.pool.filled
  /-- No heap is made. -/
  heapsCreated_eq : a'.backend.heapsCreated = a.backend.heapsCreated
  /-- No heap serves a block. -/
  totalAllocations_eq : ∀ k, a'.backend.totalAllocations k = a.backend.totalAllocations k
  /-- A pointer that is given points into the buffer. -/
  place? : q ≠ .null → ∃ start, place? q = some start

/-- A block that is freed takes nothing back from what its heap has served. -/
theorem Backend.totalAllocations_free (b : Backend) (p : Pointer) (k : HeapHandle) :
    (b.free p).totalAllocations k = b.totalAllocations k := by
  unfold Backend.free
  split
  · rfl
  · next block _ =>
    unfold Backend.totalAllocations Backend.heap?
    cases k.index? with
    | none => rfl
    | some i =>
      change ((b.heaps.modify block.heap _)[i]?).elim 0 _ = (b.heaps[i]?).elim 0 _
      rw [List.getElem?_modify]
      cases b.heaps[i]? with
      | none => rfl
      | some heap =>
        rw [Option.map_eq_map, Option.map_some]
        split <;> rfl

namespace DomainAllocator

/-- An answer keeps to the buffer when it leaves the pool alone and its pointer points there. -/
theorem keepsToBuffer_of_pool_eq (hpool : a'.pool = a.pool)
    (hq : q ≠ .null → ∃ start, place? q = some start) : a.KeepsToBuffer a' q where
  filled_eq := by rw [hpool]
  heapsCreated_eq := by rw [backend, backend, hpool]
  totalAllocations_eq k := by rw [backend, backend, hpool]
  place? := hq

/-- What is claimed is a place in the buffer, and leaves the pool alone. -/
theorem claimBootstrap_cases (h : a.claimBootstrap size = (a', q)) :
    a'.pool = a.pool ∧ (q = .null ∨ ∃ start, place? q = some start) := by
  unfold claimBootstrap at h
  split at h
  · next hclaim =>
    cases h
    exact ⟨rfl, Or.inr ⟨_, BootstrapBuffer.place?_buffer
      (BootstrapBuffer.start_lt_of_claim hclaim)⟩⟩
  · cases h
    exact ⟨rfl, Or.inl rfl⟩

/-- What is claimed keeps to the buffer. -/
theorem keepsToBuffer_of_claimBootstrap (h : a.claimBootstrap size = (a', q)) :
    a.KeepsToBuffer a' q :=
  keepsToBuffer_of_pool_eq (claimBootstrap_cases h).1 (claimBootstrap_cases h).2.resolve_left

/-- During an initialization an allocation is a claim. -/
theorem allocate_of_initializing (h : a.initializing = true) (state : DomainState) (size : Nat) :
    a.allocate state size = a.claimBootstrap size :=
  if_pos h

/-- During an initialization an allocation of zeros keeps to the buffer. -/
theorem keepsToBuffer_of_allocateZeroed {count : Nat} (hinitializing : a.initializing = true)
    (h : a.allocateZeroed state count size = (a', q)) : a.KeepsToBuffer a' q := by
  unfold allocateZeroed at h
  rw [if_pos hinitializing] at h
  split at h
  · exact keepsToBuffer_of_claimBootstrap h
  · cases h
    exact keepsToBuffer_of_pool_eq rfl fun hnull => absurd rfl hnull

/-- During an initialization a claim is moved within the buffer. -/
theorem keepsToBuffer_of_resize (hinitializing : a.initializing = true)
    (hp : place? p = some start) (h : a.resize state p size = (a', q)) : a.KeepsToBuffer a' q := by
  obtain ⟨⟨a₁, q₁⟩, hserved⟩ : ∃ answer, a.allocate state size = answer := ⟨_, rfl⟩
  have hclaimed : a.claimBootstrap size = (a₁, q₁) :=
    (allocate_of_initializing hinitializing state size).symm.trans hserved
  obtain ⟨hpool, rfl | ⟨start₁, hq⟩⟩ := claimBootstrap_cases hclaimed
  · rw [resize_eq_null hp hserved] at h
    cases h
    exact keepsToBuffer_of_claimBootstrap hclaimed
  · have hne : q₁ ≠ .null := fun hnull => by rw [hnull] at hq; cases hq
    rw [resize_eq_copy hp hserved hne] at h
    cases h
    refine keepsToBuffer_of_pool_eq ?_ fun _ => ⟨start₁, hq⟩
    -- Both what is filled and what is released lie in the buffer.
    rw [free, hp, write, hq]
    exact hpool

/-- What is given back asks nothing of the heaps. -/
theorem keepsToBuffer_free (a : DomainAllocator slots) (p : Pointer) :
    a.KeepsToBuffer (a.free p) .null := by
  unfold free
  split
  · exact keepsToBuffer_of_pool_eq rfl fun hnull => absurd rfl hnull
  · exact ⟨rfl, Backend.length_heaps_free .., Backend.totalAllocations_free _ _,
      fun hnull => absurd rfl hnull⟩

end DomainAllocator

namespace Ledger

/-- During an initialization every call but the move of a block keeps to the buffer. -/
theorem keepsToBuffer_of_not_movesBlock (hinitializing : l.allocator.initializing = true)
    (hpermits : l.permits e = true) (hanswer : l.answer? e = some (a', q))
    (hmoves : ¬ l.MovesBlock e) : l.allocator.KeepsToBuffer a' q := by
  cases e with
  | allocate state size =>
    have hserved := Option.some.inj hanswer
    rw [DomainAllocator.allocate_of_initializing hinitializing] at hserved
    exact DomainAllocator.keepsToBuffer_of_claimBootstrap hserved
  | allocateZeroed state count size =>
    exact DomainAllocator.keepsToBuffer_of_allocateZeroed hinitializing (Option.some.inj hanswer)
  | resize state p size =>
    have hresized : l.allocator.resize state p size = (a', q) := Option.some.inj hanswer
    cases hplace : place? p with
    | some start => exact DomainAllocator.keepsToBuffer_of_resize hinitializing hplace hresized
    | none =>
      -- What is no claim and may be moved is null, or a block that is held.
      by_cases hnull : p = .null
      · subst hnull
        change l.allocator.allocate state size = (a', q) at hresized
        rw [DomainAllocator.allocate_of_initializing hinitializing] at hresized
        exact DomainAllocator.keepsToBuffer_of_claimBootstrap hresized
      · have hheld : ∃ g ∈ l.grants, g.pointer = p := by
          simpa [permits, Pointer.isNull, holds, hnull] using hpermits
        obtain ⟨g, hg, rfl⟩ := hheld
        exact absurd ⟨g, hg, hplace, state, size, rfl⟩ hmoves
  | free p =>
    cases hanswer
    exact DomainAllocator.keepsToBuffer_free ..
  | store _ _ _ => cases hanswer
  | beginInitialization => cases hanswer
  | finishInitialization => cases hanswer
  | refuseHeaps _ => cases hanswer
  | exhaust _ _ => cases hanswer
  | supply _ => cases hanswer

/-- A block that is moved comes to the heap of the slot that its state selects. -/
theorem WellFormed.lookup_of_resize (h : l.WellFormed) (hg : g ∈ l.grants)
    (hplace : g.place? = none) (hresized : l.allocator.resize state g.pointer size = (a', q))
    (hq : q ≠ .null) :
    place? q = none ∧ ∃ k, a'.pool.lookup (selectSlot state slots) = some k ∧
      a'.pool.backend.owner? q = some k := by
  have hmove : l.allocator.Move state g.pointer size a' q := by
    have hresize := DomainAllocator.move_resize l.allocator state (h.pointer_ne_null hg) size
    rw [hresized] at hresize
    exact hresize
  have hnone : place? q = none := by
    cases hmove with
    | failed _ => exact absurd rfl hq
    | claim hstart _ _ => cases hplace.symm.trans hstart
    | block _ _ _ _ => rfl
  have hnew : (⟨q, state, size⟩ : Grant) ∈ (l.moved (a', q) state g.pointer size).grants :=
    mem_given hq
  exact ⟨hnone, (h.moved hg hmove).routed _ hnew hnone⟩

end Ledger

/-- Whatever was done before with an allocator that is being initialized, every call keeps to the
buffer unless it moves a block that is held; such a block stays where it is, or comes to the heap of
the slot that its state selects. -/
theorem keepsToBuffer_of_initializing (events : List BufferEvent)
    (hrun : Ledger.empty.runBuffer events = some l)
    (hinitializing : l.allocator.initializing = true) (hpermits : l.permits e = true)
    (hanswer : l.answer? e = some (a', q)) :
    (¬ l.MovesBlock e → l.allocator.KeepsToBuffer a' q) ∧
      ∀ g ∈ l.grants, g.place? = none → ∀ state size, e = .resize state g.pointer size →
        q = .null ∨ place? q = none ∧ ∃ k, a'.pool.lookup (selectSlot state slots) = some k ∧
          a'.backend.owner? q = some k := by
  have h : l.LaidOut := Ledger.laidOut_empty.runBuffer hrun
  refine ⟨Ledger.keepsToBuffer_of_not_movesBlock hinitializing hpermits hanswer, ?_⟩
  rintro g hg hplace state size rfl
  by_cases hq : q = .null
  · exact Or.inl hq
  · exact Or.inr (h.toWellFormed.lookup_of_resize hg hplace (Option.some.inj hanswer) hq)

/-- A block and a claim are held while the allocator is being initialized. -/
def reopening : List BufferEvent :=
  [.use (.allocate ⟨5, 0⟩ 8), .use .beginInitialization, .use (.allocate ⟨5, 0⟩ 100)]

/-- The claim is moved within the buffer then. -/
theorem keepsToBuffer_reopening : ∃ (l : Ledger 3) (a' : DomainAllocator 3),
    Ledger.empty.runBuffer reopening = some l ∧ l.allocator.initializing = true ∧
      l.permits (.resize ⟨5, 4⟩ (.buffer 0) 200) = true ∧
      l.answer? (.resize ⟨5, 4⟩ (.buffer 0) 200) = some (a', .buffer 112) ∧
      l.allocator.KeepsToBuffer a' (.buffer 112) := by
  refine ⟨_, _, rfl, rfl, rfl, rfl, ?_⟩
  refine (keepsToBuffer_of_initializing (e := .resize ⟨5, 4⟩ (.buffer 0) 200) reopening
    rfl rfl rfl rfl).1 ?_
  rintro ⟨g, -, hplace, state, size, heq⟩
  rw [Grant.place?, ← (AllocatorEvent.resize.inj heq).2.1] at hplace
  cases hplace

/-- The block is moved to a heap that is made then, though the buffer has no room of that size. -/
theorem exists_heap_made_while_initializing : ∃ (l : Ledger 3) (a' : DomainAllocator 3),
    Ledger.empty.runBuffer reopening = some l ∧ l.allocator.initializing = true ∧
      l.permits (.resize ⟨5, 4⟩ (.block 0 0) 2000) = true ∧
      l.answer? (.resize ⟨5, 4⟩ (.block 0 0) 2000) = some (a', .block 1 0) ∧
      a'.backend.heapsCreated = l.allocator.backend.heapsCreated + 1 ∧
      a'.backend.totalAllocations (.ofIndex 1) = 1 ∧
      ¬ l.allocator.KeepsToBuffer a' (.block 1 0) := by
  refine ⟨_, _, rfl, rfl, rfl, rfl, rfl, rfl, fun hkeeps => ?_⟩
  obtain ⟨start, hstart⟩ := hkeeps.place? (by decide)
  cases hstart

end HeapDomains
