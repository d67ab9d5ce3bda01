import HeapDomains.Allocator.Pool
import HeapDomains.Proofs.Allocator.Backend
import HeapDomains.Proofs.Except
import Mathlib.Data.List.Range

/-!
# Pools give every slot a heap of its own

`heapFor_eq_ok` and `heapFor_eq_error` say all that a pool can do when it is asked for a heap. A
pool whose heaps are all made through it is well formed: its handles are those of the heaps in the
order of their making, so no two slots have the same one (`WellFormed.lookup_injective`). Once a
slot has a heap it keeps it (`Provides.lookup_of_lookup`).
-/

namespace HeapDomains

/-- Different heaps have different handles. -/
theorem HeapHandle.ofIndex_injective : Function.Injective HeapHandle.ofIndex := fun i j h =>
  Option.some.inj ((index?_ofIndex i).symm.trans (h ▸ index?_ofIndex j))

namespace HeapPool

variable {capacity : Nat} {pool pool' : HeapPool capacity} {slot slot' : DomainSlot}
  {k : HeapHandle} {e : PoolError} {i : Nat}

/-- The handles of a pool are those of the heaps of its backend, each for one slot. -/
structure WellFormed (pool : HeapPool capacity) : Prop where
  /-- No slot is filled twice. -/
  slots_nodup : (pool.filled.map Prod.fst).Nodup
  /-- The heaps were made for the slots in the order in which they were filled. -/
  handles_eq : pool.filled.map Prod.snd =
    (List.range pool.backend.heaps.length).map HeapHandle.ofIndex

/-- A pool has come to have a heap for a slot, and changed nothing else that matters to blocks. -/
structure Provides (pool : HeapPool capacity) (slot : DomainSlot) (pool' : HeapPool capacity)
    (k : HeapHandle) : Prop where
  /-- The slot has the heap now. -/
  lookup_eq : pool'.lookup slot = some k
  /-- Slots that had a heap still have it. -/
  lookup_of_lookup : ∀ slot' k', pool.lookup slot' = some k' → pool'.lookup slot' = some k'
  /-- The live blocks are the same. -/
  blocks_eq : pool'.backend.blocks = pool.backend.blocks
  /-- So is the number of the next one. -/
  nextBlock_eq : pool'.backend.nextBlock = pool.backend.nextBlock

/-! ## Lookups -/

/-- A slot that exists can be looked up. -/
theorem get_eq_ok (h : slot.index < capacity) : pool.get slot = .ok (pool.lookup slot) :=
  if_pos h

/-- Only slots that exist can be looked up. -/
theorem get_eq_ok_iff {found : Option HeapHandle} :
    pool.get slot = .ok found ↔ slot.index < capacity ∧ pool.lookup slot = found := by
  unfold get
  split
  · next hindex => simp [hindex]
  · next hindex => simp [hindex]

/-- What is looked up was filled in. -/
theorem mem_filled_of_lookup (h : pool.lookup slot = some k) : (slot, k) ∈ pool.filled := by
  obtain ⟨before, after, heq, -⟩ := List.lookup_eq_some_iff.1 h
  rw [heq]
  exact List.mem_append_right _ List.mem_cons_self

/-- A slot that finds no heap was not filled. -/
theorem notMem_of_lookup_eq_none (h : pool.lookup slot = none) :
    slot ∉ pool.filled.map Prod.fst := by
  rintro hmem
  obtain ⟨entry, hentry, rfl⟩ := List.mem_map.1 hmem
  exact absurd rfl (bne_iff_ne.1 (List.lookup_eq_none_iff.1 h entry hentry))

/-- A slot that is filled has the heap then, when it had none. -/
theorem lookup_concat_self (b : Backend) (k : HeapHandle) (h : pool.lookup slot = none) :
    (⟨b, pool.filled ++ [(slot, k)]⟩ : HeapPool capacity).lookup slot = some k := by
  rw [lookup] at h
  rw [lookup, List.lookup_append, h, Option.none_or, List.lookup_cons_self]

/-- What all other slots have stays when a slot is filled. -/
theorem lookup_concat_of_ne (b : Backend) (k : HeapHandle) (hne : slot' ≠ slot) :
    (⟨b, pool.filled ++ [(slot, k)]⟩ : HeapPool capacity).lookup slot' = pool.lookup slot' := by
  have hnone : [(slot, k)].lookup slot' = none := List.lookup_eq_none_iff.2 fun entry hentry => by
    rw [List.mem_singleton.1 hentry]
    exact bne_iff_ne.2 hne
  rw [lookup, List.lookup_append, hnone, Option.or_none, lookup]

/-- No two slots have the same heap. -/
theorem WellFormed.lookup_injective (h : pool.WellFormed) (hk : pool.lookup slot = some k)
    (hk' : pool.lookup slot' = some k) : slot = slot' := by
  have hnodup : (pool.filled.map Prod.snd).Nodup := by
    rw [h.handles_eq]
    exact List.nodup_range.map HeapHandle.ofIndex_injective
  exact congrArg Prod.fst (List.inj_on_of_nodup_map hnodup (mem_filled_of_lookup hk)
    (mem_filled_of_lookup hk') rfl)

/-- The handle of a slot is that of the heap it stands for. -/
theorem WellFormed.eq_ofIndex (h : pool.WellFormed) (hk : pool.lookup slot = some k)
    (hi : k.index? = some i) : k = .ofIndex i := by
  have hmem : k ∈ pool.filled.map Prod.snd := List.mem_map_of_mem (mem_filled_of_lookup hk)
  rw [h.handles_eq] at hmem
  obtain ⟨j, -, rfl⟩ := List.mem_map.1 hmem
  rw [HeapHandle.index?_ofIndex] at hi
  rw [Option.some.inj hi]

/-- A pool stays well formed while its backend makes no heap. -/
theorem WellFormed.setBackend (h : pool.WellFormed) {b : Backend}
    (hheaps : b.heaps.length = pool.backend.heaps.length) :
    (⟨b, pool.filled⟩ : HeapPool capacity).WellFormed where
  slots_nodup := h.slots_nodup
  handles_eq := by
    rw [hheaps]
    exact h.handles_eq

/-! ## Requests for heaps -/

/-- When a pool gives a heap for a slot, the slot exists, and either had the heap already or has one
now that was made for it. -/
theorem heapFor_eq_ok (h : pool.heapFor slot = .ok (pool', k)) :
    slot.index < capacity ∧
      (pool.lookup slot = some k ∧ pool' = pool ∨
        pool.lookup slot = none ∧ pool.backend.refusesHeaps = false ∧
          k = .ofIndex pool.backend.heaps.length ∧
          pool' = ⟨pool.backend.createHeap.1, pool.filled ++ [(slot, k)]⟩) := by
  obtain ⟨found, hget, h⟩ := bind_eq_ok.1 h
  unfold get at hget
  split at hget
  case isFalse => cases hget
  case isTrue hindex =>
    cases hget
    refine ⟨hindex, ?_⟩
    split at h
    · next heap hfound =>
      cases h
      exact Or.inl ⟨hfound, rfl⟩
    · next hfound =>
      cases hrefuses : pool.backend.refusesHeaps with
      | true =>
        rw [Backend.createHeap_of_refuses hrefuses] at h
        cases h
      | false =>
        have hcreate := Backend.createHeap_of_makes hrefuses
        rw [hcreate] at h
        cases h
        exact Or.inr ⟨hfound, rfl, rfl, by rw [hcreate]⟩

/-- When a pool gives no heap for a slot that exists, the slot has none and none can be made. -/
theorem heapFor_eq_error (hindex : slot.index < capacity) (h : pool.heapFor slot = .error e) :
    pool.lookup slot = none ∧ pool.backend.refusesHeaps = true ∧
      e = .runtime (.heapCreation slot) := by
  unfold heapFor at h
  rw [get_eq_ok hindex] at h
  cases hfound : pool.lookup slot with
  | some heap =>
    rw [hfound] at h
    cases h
  | none =>
    rw [hfound] at h
    cases hrefuses : pool.backend.refusesHeaps with
    | true =>
      rw [Backend.createHeap_of_refuses hrefuses] at h
      cases h
      exact ⟨rfl, rfl, rfl⟩
    | false =>
      rw [Backend.createHeap_of_makes hrefuses] at h
      cases h

/-- A pool that gives a heap for a slot provides it. -/
theorem provides_of_heapFor (h : pool.heapFor slot = .ok (pool', k)) :
    pool.Provides slot pool' k := by
  obtain ⟨-, ⟨hlookup, rfl⟩ | ⟨hlookup, hrefuses, rfl, rfl⟩⟩ := heapFor_eq_ok h
  · exact ⟨hlookup, fun _ _ h => h, rfl, rfl⟩
  · have hcreate := Backend.createHeap_of_makes hrefuses
    have happend : ∀ slot' k, (pool.filled ++ [(slot, k)]).lookup slot' =
        (pool.lookup slot').or ([(slot, k)].lookup slot') := fun _ _ => List.lookup_append
    refine ⟨?_, fun slot' k' hk' => ?_, by rw [hcreate], by rw [hcreate]⟩
    · rw [lookup, happend, hlookup, Option.none_or, List.lookup_cons_self]
    · rw [lookup, happend, hk', Option.some_or]

/-- What all other slots have stays when a pool gives a heap for a slot. -/
theorem lookup_of_heapFor_of_ne (h : pool.heapFor slot = .ok (pool', k)) (hne : slot' ≠ slot) :
    pool'.lookup slot' = pool.lookup slot' := by
  obtain ⟨-, ⟨-, rfl⟩ | ⟨-, -, rfl, rfl⟩⟩ := heapFor_eq_ok h
  · rfl
  · exact lookup_concat_of_ne _ _ hne

/-- A pool stays well formed when it gives a heap. -/
theorem WellFormed.heapFor (hpool : pool.WellFormed) (h : pool.heapFor slot = .ok (pool', k)) :
    pool'.WellFormed := by
  obtain ⟨-, ⟨-, rfl⟩ | ⟨hlookup, hrefuses, rfl, rfl⟩⟩ := heapFor_eq_ok h
  · exact hpool
  · refine ⟨?_, ?_⟩
    · rw [List.map_append, List.map_singleton, ← List.concat_eq_append, List.nodup_concat]
      exact ⟨notMem_of_lookup_eq_none hlookup, hpool.slots_nodup⟩
    · rw [List.map_append, hpool.handles_eq, Backend.createHeap_of_makes hrefuses,
        List.length_append, List.length_singleton, List.range_succ, List.map_append]
      rfl

/-- Its backend stays well formed, too. -/
theorem wellFormed_backend_heapFor (hbackend : pool.backend.WellFormed)
    (h : pool.heapFor slot = .ok (pool', k)) : pool'.backend.WellFormed := by
  obtain ⟨-, ⟨-, rfl⟩ | ⟨-, -, rfl, rfl⟩⟩ := heapFor_eq_ok h
  · exact hbackend
  · exact hbackend.createHeap

end HeapPool

end HeapDomains
