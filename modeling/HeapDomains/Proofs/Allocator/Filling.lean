import HeapDomains.Proofs.Allocator.Pool
import HeapDomains.Proofs.Allocator.Slot

/-!
# How a pool is filled

A pool in use is asked for the heap of a slot, or of the slot that a state selects, and looked up,
in any order, and its backend may be told at any time to make no more heaps. A request that cannot
be met changes nothing, and one that is met fills the slot that is asked for and no other one
(`HeapPool.change`). So what a slot has stays through every run (`HeapPool.lookup_run`), and since
every heap is made for one slot, no two slots share one and none of them is lost
(`HeapPool.InUse.run`, `HeapPool.givesOwnHeaps_run`).
-/

namespace HeapDomains

/-- What can be done with a pool, and what can happen to its backend. -/
inductive PoolEvent where
  /-- The heap of a slot is asked for. -/
  | heapFor (slot : DomainSlot)
  /-- The heap of the slot that a state selects is asked for. -/
  | heapForState (state : DomainState)
  /-- A slot is looked up. -/
  | get (slot : DomainSlot)
  /-- The backend makes no more heaps, or makes them again. -/
  | refuseHeaps (on : Bool)

namespace HeapPool

variable {capacity : Nat} {pool pool' : HeapPool capacity} {slot slot' : DomainSlot}
  {k : HeapHandle} {e : PoolError} {domain : Domain}

/-- The pool after a request for a heap, which is the one from before when there is no heap. -/
def after (pool : HeapPool capacity) (answer : Except PoolError (HeapPool capacity × HeapHandle)) :
    HeapPool capacity :=
  match answer with
  | .ok (pool', _) => pool'
  | .error _ => pool

/-- The pool after an event. -/
def step (pool : HeapPool capacity) : PoolEvent → HeapPool capacity
  | .heapFor slot => pool.after (pool.heapFor slot)
  | .heapForState state => pool.after (pool.heapForState state)
  | .get _ => pool
  | .refuseHeaps on => { pool with backend := pool.backend.setRefusing on }

/-- The pool after some events. -/
def run (pool : HeapPool capacity) (events : List PoolEvent) : HeapPool capacity :=
  events.foldl step pool

/-- What an event can make of a pool. -/
inductive Change (pool : HeapPool capacity) : HeapPool capacity → Prop
  /-- Nothing is done, or a request is not met. -/
  | nothing : Change pool pool
  /-- A request for the heap of a slot is met. -/
  | given {pool' : HeapPool capacity} {slot : DomainSlot} {k : HeapHandle} :
    pool.heapFor slot = .ok (pool', k) → Change pool pool'
  /-- The backend makes no more heaps, or makes them again. -/
  | refusing (on : Bool) : Change pool { pool with backend := pool.backend.setRefusing on }

/-- A request is met, or changes nothing. -/
theorem change_after (pool : HeapPool capacity) (slot : DomainSlot) :
    pool.Change (pool.after (pool.heapFor slot)) := by
  cases h : pool.heapFor slot with
  | ok answer => exact .given h
  | error _ => exact .nothing

/-- Every event makes one of the changes. -/
theorem change (pool : HeapPool capacity) (event : PoolEvent) : pool.Change (pool.step event) := by
  cases event with
  | heapFor slot => exact pool.change_after slot
  | heapForState state => exact pool.change_after (selectSlot state capacity)
  | get _ => exact .nothing
  | refuseHeaps on => exact .refusing on

/-! ## What a slot has -/

/-- A slot has a heap when it was filled. -/
theorem isSome_lookup_iff : (pool.lookup slot).isSome = true ↔ slot ∈ pool.filled.map Prod.fst := by
  rw [lookup, List.lookup_isSome_iff, List.mem_map]
  simp only [beq_iff_eq, @eq_comm _ slot]

/-- A change leaves what slots have. -/
theorem Change.lookup_eq (hchange : pool.Change pool') (h : pool.lookup slot = some k) :
    pool'.lookup slot = some k := by
  cases hchange with
  | nothing => exact h
  | given hgiven => exact (provides_of_heapFor hgiven).lookup_of_lookup slot k h
  | refusing _ => exact h

/-- What a slot has, it has after every run. -/
theorem lookup_run (h : pool.lookup slot = some k) (events : List PoolEvent) :
    (pool.run events).lookup slot = some k := by
  induction events generalizing pool with
  | nil => exact h
  | cons event events ih => exact ih ((pool.change event).lookup_eq h)

/-! ## Requests -/

/-- A slot that exists is given no heap exactly when it has none and none can be made. -/
theorem heapFor_eq_error_iff (hindex : slot.index < capacity) :
    pool.heapFor slot = .error e ↔ pool.lookup slot = none ∧ pool.backend.refusesHeaps = true ∧
      e = .runtime (.heapCreation slot) := by
  refine ⟨heapFor_eq_error hindex, ?_⟩
  rintro ⟨hnone, hrefuses, rfl⟩
  cases h : pool.heapFor slot with
  | ok answer =>
    -- What is given was there before, or was made.
    obtain ⟨-, ⟨hsome, -⟩ | ⟨-, hmakes, -⟩⟩ := heapFor_eq_ok h
    · cases hnone.symm.trans hsome
    · cases hmakes.symm.trans hrefuses
  | error other => rw [(heapFor_eq_error hindex h).2.2]

/-- A slot that exists is given a heap when heaps can be made. -/
theorem exists_heapFor (hindex : slot.index < capacity) (hmakes : pool.backend.refusesHeaps = false) :
    ∃ pool' k, pool.heapFor slot = .ok (pool', k) := by
  cases h : pool.heapFor slot with
  | ok answer => exact ⟨answer.1, answer.2, rfl⟩
  | error e => cases hmakes.symm.trans (heapFor_eq_error hindex h).2.1

/-- A slot that has a heap is given that one, and nothing changes. -/
theorem heapFor_of_lookup (hindex : slot.index < capacity) (h : pool.lookup slot = some k) :
    pool.heapFor slot = .ok (pool, k) := by
  unfold heapFor
  rw [get_eq_ok hindex, h]
  rfl

/-! ## All slots -/

/-- A pool is well formed, and the slots that were filled exist. -/
structure InUse (pool : HeapPool capacity) : Prop extends WellFormed pool where
  /-- The slots that were filled exist. -/
  index_lt : ∀ slot ∈ pool.filled.map Prod.fst, slot.index < capacity

/-- A pool without heaps may be used. -/
theorem inUse_empty : (empty : HeapPool capacity).InUse :=
  ⟨⟨List.nodup_nil, rfl⟩, fun _ h => absurd h List.not_mem_nil⟩

namespace InUse

/-- Every change leaves a pool that may be used. -/
theorem of_change (h : pool.InUse) (hchange : pool.Change pool') : pool'.InUse := by
  cases hchange with
  | nothing => exact h
  | @given _ slot k hgiven =>
    refine ⟨h.toWellFormed.heapFor hgiven, fun slot' hslot' => ?_⟩
    rw [← isSome_lookup_iff] at hslot'
    by_cases heq : slot' = slot
    · exact heq ▸ (heapFor_eq_ok hgiven).1
    · rw [lookup_of_heapFor_of_ne hgiven heq, isSome_lookup_iff] at hslot'
      exact h.index_lt slot' hslot'
  | refusing _ => exact ⟨h.toWellFormed.setBackend rfl, h.index_lt⟩

/-- So does every run. -/
theorem run (h : pool.InUse) (events : List PoolEvent) : (pool.run events).InUse := by
  induction events generalizing pool with
  | nil => exact h
  | cons event events ih => exact ih (h.of_change (pool.change event))

/-- A domain counts its slots that have a heap. -/
theorem created_eq (h : pool.InUse) (domain : Domain) :
    pool.created domain =
      (List.range capacity).countP fun i => (pool.lookup ⟨domain, i⟩).isSome := by
  -- The indices of the slots that were filled are those at which something is found.
  have hperm : (((pool.filled.map Prod.fst).filter (·.domain == domain)).map DomainSlot.index).Perm
      ((List.range capacity).filter fun i => (pool.lookup ⟨domain, i⟩).isSome) := by
    refine (List.perm_ext_iff_of_nodup ?_ (List.nodup_range.filter _)).2 fun i => ?_
    · refine (h.slots_nodup.filter _).map_on fun slot hslot slot' hslot' heq => ?_
      have hdomain := beq_iff_eq.1 (List.mem_filter.1 hslot).2
      have hdomain' := beq_iff_eq.1 (List.mem_filter.1 hslot').2
      cases slot
      cases slot'
      simp_all
    · rw [List.mem_filter, isSome_lookup_iff, List.mem_range, List.mem_map]
      constructor
      · rintro ⟨slot, hslot, rfl⟩
        obtain ⟨hmem, hdomain⟩ := List.mem_filter.1 hslot
        obtain rfl := beq_iff_eq.1 hdomain
        exact ⟨h.index_lt slot hmem, hmem⟩
      · rintro ⟨-, hmem⟩
        exact ⟨⟨domain, i⟩, List.mem_filter.2 ⟨hmem, beq_self_eq_true domain⟩, rfl⟩
  calc pool.created domain
    _ = (pool.filled.map Prod.fst).countP (·.domain == domain) := by rw [List.countP_map]; rfl
    _ = (((pool.filled.map Prod.fst).filter (·.domain == domain)).map DomainSlot.index).length := by
      rw [List.length_map, List.countP_eq_length_filter]
    _ = _ := by rw [hperm.length_eq, List.countP_eq_length_filter]

/-- The slots of both domains that have a heap are as many as the heaps. -/
theorem created_add_created (h : pool.InUse) :
    pool.created .safe + pool.created .exposed = pool.backend.heapsCreated := by
  have hexposed : pool.created .exposed =
      pool.filled.countP fun entry => ¬ (entry.1.domain == Domain.safe) = true := by
    refine List.countP_congr fun entry _ => ?_
    cases entry.1.domain <;> decide
  rw [hexposed, created, ← List.length_eq_countP_add_countP]
  have hlength := congrArg List.length h.handles_eq
  rw [List.length_map, List.length_map, List.length_range] at hlength
  exact hlength

end InUse

/-- All that is said of the heaps of a pool. -/
structure GivesOwnHeaps (pool : HeapPool capacity) : Prop where
  /-- The heap of a slot is its heap ever after. -/
  get_run : ∀ slot k, pool.get slot = .ok (some k) →
    ∀ events, (pool.run events).get slot = .ok (some k)
  /-- No two slots have the same heap. -/
  get_injective : ∀ slot slot' k, pool.get slot = .ok (some k) → pool.get slot' = .ok (some k) →
    slot = slot'
  /-- A domain counts its slots that have a heap. -/
  created_eq : ∀ domain, pool.created domain =
    (List.range capacity).countP fun i => (pool.lookup ⟨domain, i⟩).isSome
  /-- Together they are as many as the heaps. -/
  created_add_created : pool.created .safe + pool.created .exposed = pool.backend.heapsCreated
  /-- A slot that a state selects exists, and its heap is the one that is given for the state. -/
  heapForState_eq : ∀ state, (selectSlot state capacity).index < capacity ∧
    pool.heapForState state = pool.heapFor (selectSlot state capacity)
  /-- A heap that is given is that of the slot, and what all other slots have stays. -/
  get_heapFor : ∀ slot pool' k, pool.heapFor slot = .ok (pool', k) →
    pool'.get slot = .ok (some k) ∧ ∀ slot', slot' ≠ slot → pool'.get slot' = pool.get slot'
  /-- A slot that has a heap is given that one, and nothing changes. -/
  heapFor_of_get : ∀ slot k, pool.get slot = .ok (some k) → pool.heapFor slot = .ok (pool, k)
  /-- A slot that exists is given none exactly when it has none and none can be made. -/
  heapFor_eq_error_iff : ∀ slot e, slot.index < capacity →
    (pool.heapFor slot = .error e ↔ pool.get slot = .ok none ∧
      pool.backend.refusesHeaps = true ∧ e = .runtime (.heapCreation slot))
  /-- Nothing changes then. -/
  step_of_error : ∀ slot e, pool.heapFor slot = .error e → pool.step (.heapFor slot) = pool
  /-- Whatever happens then, the slot is given a heap when heaps can be made again. -/
  exists_heapFor : ∀ slot, slot.index < capacity → ∀ events, ∃ pool' k,
    (((pool.step (.heapFor slot)).run events).step (.refuseHeaps false)).heapFor slot =
      .ok (pool', k)

/-- Whatever is done with a new pool of more slots than are reserved, its slots have heaps of their
own. -/
theorem givesOwnHeaps_run (hcapacity : reservedSlots < capacity) (events : List PoolEvent) :
    ((empty : HeapPool capacity).run events).GivesOwnHeaps := by
  have h : ((empty : HeapPool capacity).run events).InUse := inUse_empty.run events
  constructor
  · intro slot k hk events'
    obtain ⟨hindex, hlookup⟩ := get_eq_ok_iff.1 hk
    exact get_eq_ok_iff.2 ⟨hindex, lookup_run hlookup events'⟩
  · exact fun slot slot' k hk hk' =>
      h.lookup_injective (get_eq_ok_iff.1 hk).2 (get_eq_ok_iff.1 hk').2
  · exact h.created_eq
  · exact h.created_add_created
  · exact fun state => ⟨selectSlot_index_lt hcapacity state, rfl⟩
  · intro slot pool' k hgiven
    refine ⟨get_eq_ok_iff.2 ⟨(heapFor_eq_ok hgiven).1, (provides_of_heapFor hgiven).lookup_eq⟩, ?_⟩
    intro slot' hne
    unfold get
    rw [lookup_of_heapFor_of_ne hgiven hne]
  · intro slot k hk
    obtain ⟨hindex, hlookup⟩ := get_eq_ok_iff.1 hk
    exact heapFor_of_lookup hindex hlookup
  · intro slot e hindex
    rw [HeapPool.heapFor_eq_error_iff hindex, get_eq_ok hindex, Except.ok.injEq]
  · intro slot e herror
    rw [step, herror]
    rfl
  · exact fun slot hindex events' => HeapPool.exists_heapFor hindex rfl

/-- A run in which a heap is refused before it is made, and heaps are asked for again. -/
def refilling : List PoolEvent :=
  [.heapFor ⟨.safe, 2⟩,
    .refuseHeaps true,
    .heapForState ⟨5, 3⟩,
    .get ⟨.exposed, 2⟩,
    .heapForState ⟨5, 0⟩,
    .refuseHeaps false,
    .heapForState ⟨5, 3⟩,
    .heapFor ⟨.exposed, 2⟩,
    .heapForState ⟨1, 0⟩]

/-- Three slots have heaps in the end, two of them in one domain. -/
theorem givesOwnHeaps_refilling : reservedSlots < 3 ∧
    ((empty : HeapPool 3).run refilling).GivesOwnHeaps ∧
      ((empty : HeapPool 3).run refilling).filled =
        [(⟨.safe, 2⟩, .ofIndex 0), (⟨.exposed, 2⟩, .ofIndex 1), (⟨.safe, 1⟩, .ofIndex 2)] :=
  ⟨by decide, givesOwnHeaps_run (by decide) refilling, rfl⟩

end HeapPool

end HeapDomains
