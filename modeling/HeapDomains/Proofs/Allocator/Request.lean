import HeapDomains.Allocator.Basic
import HeapDomains.Proofs.Allocator.Backend
import HeapDomains.Proofs.Allocator.Bootstrap
import HeapDomains.Proofs.Allocator.Pool

/-!
# What a request can come to

`Outcome` lists all that can happen to an allocator that is asked for some bytes, and `Move` all
that can happen to it when something is to be resized. Every operation that serves is one of these
(`outcome_allocate`, `outcome_allocateZeroed`, `move_resize`), so what all of them keep is shown
once for each case.
-/

namespace HeapDomains.DomainAllocator

variable {slots : Nat} {a a' : DomainAllocator slots} {state : DomainState} {p q : Pointer}
  {size start : Nat}

/-- The allocator after a request for some number of bytes, and the pointer that it gives. -/
inductive Outcome (a : DomainAllocator slots) (state : DomainState) (size : Nat) :
    DomainAllocator slots → Pointer → Prop
  /-- No heap can be had, the buffer has no room left, or no word can hold the size. -/
  | nothing : Outcome a state size a .null
  /-- The slot has its heap, but that one does not serve the request: it is exhausted, the size is
  too large, or the system allocator has no memory. -/
  | refused {pool : HeapPool slots} {k : HeapHandle} :
    a.pool.heapForState state = .ok (pool, k) → Outcome a state size { a with pool := pool } .null
  /-- During the initialization the buffer has room. -/
  | claimed {buffer : BootstrapBuffer} {start : Nat} :
    a.initializing = true → a.bootstrap.claim size = .ok (buffer, start) →
    Outcome a state size { a with bootstrap := buffer } (.buffer start)
  /-- The heap of the slot serves a block. -/
  | served {pool : HeapPool slots} {k : HeapHandle} {i : Nat} {c : Contents} :
    a.pool.heapForState state = .ok (pool, k) → pool.backend.CanServe k size i c →
    Outcome a state size
      { a with pool := { pool with backend := (pool.backend.serve i size c).1 } }
      (.block pool.backend.nextBlock 0)

/-- The allocator after what is at a pointer was to be moved, and the pointer that it gives. What
was there is given up only after a new place was found and filled. -/
inductive Move (a : DomainAllocator slots) (state : DomainState) (p : Pointer) (size : Nat) :
    DomainAllocator slots → Pointer → Prop
  /-- There is no new place. -/
  | failed {a' : DomainAllocator slots} :
    a.Outcome state size a' .null → Move a state p size a' .null
  /-- A claim is moved to a new claim or to a block. -/
  | claim {a' : DomainAllocator slots} {q : Pointer} {start : Nat} :
    BootstrapBuffer.place? p = some start → a.Outcome state size a' q → q ≠ .null →
    Move a state p size
      ((a'.write q (a'.bootstrap.read start
        (min (BootstrapBuffer.remainingFrom start) size))).free p) q
  /-- A block is moved to one that the heap of the slot serves, also during the initialization. -/
  | block {pool : HeapPool slots} {k : HeapHandle} {old : Block} {i : Nat} {c : Contents} :
    BootstrapBuffer.place? p = none → a.pool.heapForState state = .ok (pool, k) →
    pool.backend.block? p = some old → pool.backend.CanServe k size i c →
    Move a state p size
      (({ a with
        pool := { pool with
          backend := (pool.backend.serve i size c).1.modifyContents pool.backend.nextBlock
            fun fresh => fresh.copy old.contents (min old.size size) } } :
        DomainAllocator slots).free p)
      (.block pool.backend.nextBlock 0)

/-- The heap of the next allocation is that which the pool gives, if it gives one. -/
theorem heap_cases (a : DomainAllocator slots) (state : DomainState) :
    (∃ pool k, a.pool.heapForState state = .ok (pool, k) ∧
      a.heap state = ({ a with pool := pool }, some k)) ∨ a.heap state = (a, none) := by
  unfold heap
  split
  · next pool k hk => exact Or.inl ⟨pool, k, hk, rfl⟩
  · exact Or.inr rfl

/-- Outside the initialization a request is served by the heap that its state selects. -/
theorem outcome_serve (a : DomainAllocator slots) (state : DomainState)
    {f : Backend → HeapHandle → Backend × Pointer}
    (hf : ∀ b k, f b k = (b, .null) ∨ ∃ i c, b.CanServe k size i c ∧ f b k = b.serve i size c) :
    a.Outcome state size (a.serve state f).1 (a.serve state f).2 := by
  unfold serve
  rcases heap_cases a state with ⟨pool, k, hk, hheap⟩ | hheap
  · rw [hheap]
    change Outcome a state size (setBackend _ (f pool.backend k).1) (f pool.backend k).2
    rcases hf pool.backend k with hnone | ⟨i, c, hi, hserved⟩
    · rw [hnone]
      exact .refused hk
    · rw [hserved]
      exact .served hk hi
  · rw [hheap]
    exact .nothing

/-- During the initialization a request is served by the buffer. -/
theorem outcome_claimBootstrap (hinitializing : a.initializing = true) (state : DomainState)
    (size : Nat) : a.Outcome state size (a.claimBootstrap size).1 (a.claimBootstrap size).2 := by
  unfold claimBootstrap
  split
  · next hclaim => exact .claimed hinitializing hclaim
  · exact .nothing

/-- What an allocation can come to. -/
theorem outcome_allocate (a : DomainAllocator slots) (state : DomainState) (size : Nat) :
    a.Outcome state size (a.allocate state size).1 (a.allocate state size).2 := by
  unfold allocate
  split
  · next hinitializing => exact outcome_claimBootstrap hinitializing state size
  · exact outcome_serve a state fun b k => b.alloc_cases k size

/-- What an allocation of zeros can come to. -/
theorem outcome_allocateZeroed (a : DomainAllocator slots) (state : DomainState)
    (count size : Nat) :
    a.Outcome state (count * size) (a.allocateZeroed state count size).1
      (a.allocateZeroed state count size).2 := by
  unfold allocateZeroed checkedMul
  split
  · next hinitializing =>
    split
    · next total htotal =>
      split at htotal
      · cases htotal
        exact outcome_claimBootstrap hinitializing state (count * size)
      · cases htotal
    · exact .nothing
  · exact outcome_serve a state fun b k => b.allocZeroed_cases k count size

/-- A claim stays where it is when there is no new place. -/
theorem resize_eq_null (hp : BootstrapBuffer.place? p = some start)
    (h : a.allocate state size = (a', .null)) : a.resize state p size = (a', .null) := by
  obtain ⟨rfl, -⟩ := BootstrapBuffer.place?_eq_some hp
  unfold resize resizeClaim
  rw [hp, h]
  rfl

/-- A claim that has a new place is copied to it, as far as the buffer reaches, and released. -/
theorem resize_eq_copy (hp : BootstrapBuffer.place? p = some start)
    (h : a.allocate state size = (a', q)) (hq : q ≠ .null) :
    a.resize state p size =
      ((a'.write q (a'.bootstrap.read start
        (min (BootstrapBuffer.remainingFrom start) size))).free p, q) := by
  obtain ⟨rfl, -⟩ := BootstrapBuffer.place?_eq_some hp
  unfold resize resizeClaim
  rw [hp, h]
  cases q with
  | null => exact absurd rfl hq
  | buffer offset => rfl
  | block id offset => rfl
  | foreign => rfl

/-- What a resize of something can come to. -/
theorem move_resize (a : DomainAllocator slots) (state : DomainState) (hp : p ≠ .null)
    (size : Nat) : a.Move state p size (a.resize state p size).1 (a.resize state p size).2 := by
  cases hplace : BootstrapBuffer.place? p with
  | some start =>
    have houtcome := outcome_allocate a state size
    by_cases hnull : (a.allocate state size).2 = .null
    · rw [resize_eq_null hplace (Prod.ext rfl hnull)]
      exact .failed (hnull ▸ houtcome)
    · rw [resize_eq_copy hplace rfl hnull]
      exact .claim hplace houtcome hnull
  | none =>
    unfold resize serve
    rw [if_neg (by simpa [Pointer.isNull] using hp), hplace]
    rcases heap_cases a state with ⟨pool, k, hk, hheap⟩ | hheap
    · rw [hheap]
      change Move a state p size (setBackend _ (pool.backend.resize k p size).1)
        (pool.backend.resize k p size).2
      rcases pool.backend.resize_cases k hp size with hnone | ⟨old, i, c, hold, hi, hmoved⟩
      · rw [hnone]
        exact .failed (.refused hk)
      · rw [hmoved]
        have hmove := Move.block hplace hk hold hi
        rw [free, hplace] at hmove
        exact hmove
    · rw [hheap]
      exact .failed .nothing

end HeapDomains.DomainAllocator
