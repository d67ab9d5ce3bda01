import HeapDomains.Proofs.Allocator.Window

/-!
# Requests that fail

An allocator that has no place to give answers with null. That can be so because no heap can be
made, because the heap is exhausted, because the size fits no word, no block or not the bootstrap
buffer, because the system allocator has no memory, or because there is nothing to move; a slot may
have been given a heap by then. That heap is all that a request that fails leaves behind
(`Outcome.eq_or_eq_withHeap`), and it is in the slot that the state selects. All else is kept, so
what was to be moved is still there (`keepsAllBut_of_null`).
-/

namespace HeapDomains

variable {slots : Nat} {a a' : DomainAllocator slots} {l : Ledger slots} {e : AllocatorEvent}
  {state : DomainState} {slot slot' : DomainSlot} {k : HeapHandle} {heap : Heap} {size : Nat}

namespace DomainAllocator

/-- The allocator with a new heap in a slot. -/
def withHeap (a : DomainAllocator slots) (slot : DomainSlot) : DomainAllocator slots :=
  { a with
    pool :=
      ⟨{ a.backend with heaps := a.backend.heaps ++ [⟨false, 0, 0⟩] },
        a.pool.filled ++ [(slot, .ofIndex a.backend.heapsCreated)]⟩ }

/-- An allocator has kept all that it had, and one slot at most has been given a heap. -/
structure KeepsAllBut (a a' : DomainAllocator slots) (slot : DomainSlot) : Prop where
  /-- Nothing has changed unless the slot had no heap and was given a new one. -/
  eq_or_eq : a' = a ∨ a.pool.get slot = .ok none ∧ a' = a.withHeap slot
  /-- The live blocks have the owners, the sizes and the bytes that they had. -/
  blocks_eq : a'.backend.blocks = a.backend.blocks
  /-- No heap has more or fewer live blocks. -/
  liveBlocks_eq : ∀ k, a'.backend.liveBlocks k = a.backend.liveBlocks k
  /-- No heap has served another block. -/
  totalAllocations_eq : ∀ k, a'.backend.totalAllocations k = a.backend.totalAllocations k
  /-- A heap that serves nothing more does so still, and the others still serve. -/
  heap?_eq : ∀ k heap, a.backend.heap? k = some heap → a'.backend.heap? k = some heap
  /-- The buffer has its claims, its free end and its bytes. -/
  bootstrap_eq : a'.bootstrap = a.bootstrap
  /-- The initialization goes on, or has not started. -/
  initializing_eq : a'.initializing = a.initializing
  /-- All other slots, those of the other domain too, have what they had. -/
  get_eq : ∀ slot', slot' ≠ slot → a'.pool.get slot' = a.pool.get slot'
  /-- The slot has the new heap if it was given one, which no slot had before. -/
  get_slot : a'.pool.get slot = a.pool.get slot ∨
    a'.pool.get slot = .ok (some (.ofIndex a.backend.heapsCreated)) ∧
      a'.backend.heapsCreated = a.backend.heapsCreated + 1
  /-- Whatever could be read can be read. -/
  read_eq : ∀ p count, a'.read p count = a.read p count

/-- An allocator that has not changed has kept all that it had. -/
theorem keepsAllBut_self (a : DomainAllocator slots) (slot : DomainSlot) : a.KeepsAllBut a slot where
  eq_or_eq := Or.inl rfl
  blocks_eq := rfl
  liveBlocks_eq _ := rfl
  totalAllocations_eq _ := rfl
  heap?_eq _ _ h := h
  bootstrap_eq := rfl
  initializing_eq := rfl
  get_eq _ _ := rfl
  get_slot := Or.inl rfl
  read_eq _ _ := rfl

/-- Every handle stands for the heap it stood for, or stands for the new one now. -/
theorem heap?_withHeap (a : DomainAllocator slots) (slot : DomainSlot) (k : HeapHandle) :
    (a.withHeap slot).backend.heap? k = a.backend.heap? k ∨
      a.backend.heap? k = none ∧ (a.withHeap slot).backend.heap? k = some ⟨false, 0, 0⟩ := by
  unfold Backend.heap?
  cases k.index? with
  | none => exact Or.inl rfl
  | some i =>
    change (a.backend.heaps ++ [⟨false, 0, 0⟩])[i]? = a.backend.heaps[i]? ∨
      a.backend.heaps[i]? = none ∧ (a.backend.heaps ++ [⟨false, 0, 0⟩])[i]? = some ⟨false, 0, 0⟩
    rcases lt_trichotomy i a.backend.heaps.length with hlt | rfl | hgt
    · exact Or.inl (List.getElem?_append_left hlt)
    · exact Or.inr ⟨List.getElem?_eq_none le_rfl, List.getElem?_concat_length⟩
    · refine Or.inl ?_
      rw [List.getElem?_eq_none hgt.le, List.getElem?_eq_none (by rwa [List.length_append])]

/-- A new heap counts nothing, so no count changes. -/
theorem elim_heap?_withHeap {count : Heap → Nat} (hcount : count ⟨false, 0, 0⟩ = 0)
    (a : DomainAllocator slots) (slot : DomainSlot) (k : HeapHandle) :
    ((a.withHeap slot).backend.heap? k).elim 0 count = (a.backend.heap? k).elim 0 count := by
  rcases a.heap?_withHeap slot k with hsame | ⟨hnone, hnew⟩
  · rw [hsame]
  · rw [hnone, hnew]
    exact hcount

/-- All that an allocator had is kept when a slot without a heap is given one. -/
theorem keepsAllBut_withHeap (hget : a.pool.get slot = .ok none) :
    a.KeepsAllBut (a.withHeap slot) slot := by
  obtain ⟨hindex, hnone⟩ := HeapPool.get_eq_ok_iff.1 hget
  refine ⟨Or.inr ⟨hget, rfl⟩, rfl, a.elim_heap?_withHeap rfl slot, a.elim_heap?_withHeap rfl slot,
    fun k heap hheap => ?_, rfl, rfl, fun slot' hne => ?_, Or.inr ⟨?_, List.length_append⟩,
    fun _ _ => rfl⟩
  · rcases a.heap?_withHeap slot k with hsame | ⟨hnone, -⟩
    · rw [hsame, hheap]
    · cases hnone.symm.trans hheap
  · unfold HeapPool.get
    rw [withHeap, HeapPool.lookup_concat_of_ne _ _ hne]
  · exact HeapPool.get_eq_ok_iff.2 ⟨hindex, HeapPool.lookup_concat_self _ _ hnone⟩

/-- A request that fails has made a heap for the slot that its state selects, or nothing. -/
theorem Outcome.eq_or_eq_withHeap (h : a.Outcome state size a' .null) :
    a' = a ∨ a.pool.get (selectSlot state slots) = .ok none ∧
      a' = a.withHeap (selectSlot state slots) := by
  cases h with
  | nothing => exact Or.inl rfl
  | refused hk =>
    obtain ⟨hindex, ⟨-, rfl⟩ | ⟨hnone, hmakes, rfl, rfl⟩⟩ := HeapPool.heapFor_eq_ok hk
    · exact Or.inl rfl
    · refine Or.inr ⟨HeapPool.get_eq_ok_iff.2 ⟨hindex, hnone⟩, ?_⟩
      rw [Backend.createHeap_of_makes hmakes]
      rfl

/-- A request that fails keeps all but the slot that its state selects. -/
theorem Outcome.keepsAllBut (h : a.Outcome state size a' .null) :
    a.KeepsAllBut a' (selectSlot state slots) := by
  rcases h.eq_or_eq_withHeap with rfl | ⟨hget, rfl⟩
  · exact keepsAllBut_self ..
  · exact keepsAllBut_withHeap hget

/-- What is to be moved stays where it is only when the request for a new place failed. -/
theorem Move.outcome_of_null {p : Pointer} (h : a.Move state p size a' .null) :
    a.Outcome state size a' .null := by
  cases h with
  | failed houtcome => exact houtcome
  | claim _ _ hne => exact absurd rfl hne

end DomainAllocator

namespace Ledger

/-- When an event that asks for a place is answered with null, a request has failed, and the same
is held as before. -/
theorem exists_outcome_of_null (hstate : e.state? = some state)
    (hanswer : l.answer? e = some (a', .null)) :
    ∃ size, l.allocator.Outcome state size a' .null ∧ l.step e = { l with allocator := a' } := by
  cases e with
  | allocate state size =>
    cases hstate
    have hfailed : l.allocator.allocate state size = (a', .null) := Option.some.inj hanswer
    have houtcome := l.allocator.outcome_allocate state size
    rw [hfailed] at houtcome
    refine ⟨size, houtcome, ?_⟩
    rw [step, hfailed]
    rfl
  | allocateZeroed state count size =>
    cases hstate
    have hfailed : l.allocator.allocateZeroed state count size = (a', .null) :=
      Option.some.inj hanswer
    have houtcome := l.allocator.outcome_allocateZeroed state count size
    rw [hfailed] at houtcome
    refine ⟨count * size, houtcome, ?_⟩
    rw [step, hfailed]
    rfl
  | resize state p size =>
    cases hstate
    have hfailed : l.allocator.resize state p size = (a', .null) := Option.some.inj hanswer
    refine ⟨size, ?_, ?_⟩
    · by_cases hnull : p = .null
      · subst hnull
        have houtcome := l.allocator.outcome_allocate state size
        rw [show l.allocator.allocate state size = (a', .null) from hfailed] at houtcome
        exact houtcome
      · have hmove := l.allocator.move_resize state hnull size
        rw [hfailed] at hmove
        exact hmove.outcome_of_null
    · rw [step, hfailed]
      rfl
  | free _ => cases hstate
  | store _ _ _ => cases hstate
  | beginInitialization => cases hstate
  | finishInitialization => cases hstate
  | refuseHeaps _ => cases hstate
  | exhaust _ _ => cases hstate
  | supply _ => cases hstate

end Ledger

/-- Whatever the state of an allocator, when it answers with null to what asks for a place, it has
kept all that it had but for a heap in the slot that the state selects, and the same is held. -/
theorem keepsAllBut_of_null (hstate : e.state? = some state)
    (hanswer : l.answer? e = some (a', .null)) :
    l.allocator.KeepsAllBut a' (selectSlot state slots) ∧ l.step e = { l with allocator := a' } := by
  obtain ⟨size, houtcome, hstep⟩ := Ledger.exists_outcome_of_null hstate hanswer
  exact ⟨houtcome.keepsAllBut, hstep⟩

/-- A block that is to be moved when there is no memory stays, with a claim beside it and another
heap that is exhausted; the slot of the state has a heap then. -/
theorem keepsAllBut_exchange : ∃ (l : Ledger 3) (a' : DomainAllocator 3),
    Ledger.empty.runBuffer
        [.use .beginInitialization, .use (.allocate ⟨5, 0⟩ 10), .use .finishInitialization,
          .use (.allocate ⟨5, 0⟩ 4), .use (.store (.block 0 0) 0 [7, 8]),
          .use (.exhaust (.ofIndex 0) true), .use (.supply fun _ => none)] = some l ∧
      (AllocatorEvent.resize ⟨5, 4⟩ (.block 0 0) 8).state? = some ⟨5, 4⟩ ∧
      l.answer? (.resize ⟨5, 4⟩ (.block 0 0) 8) = some (a', .null) ∧
      (l.allocator.KeepsAllBut a' ⟨.exposed, 2⟩ ∧
        l.step (.resize ⟨5, 4⟩ (.block 0 0) 8) = { l with allocator := a' }) ∧
      a'.pool.filled = [(⟨.safe, 2⟩, .ofIndex 0), (⟨.exposed, 2⟩, .ofIndex 1)] ∧
      a'.read (.block 0 0) 2 = [7, 8] :=
  ⟨_, _, rfl, rfl, rfl, keepsAllBut_of_null (e := .resize ⟨5, 4⟩ (.block 0 0) 8) rfl rfl, rfl, rfl⟩

end HeapDomains
