import HeapDomains.Proofs.Allocator.Request
import HeapDomains.Proofs.Allocator.Slot

/-!
# Allocators in use

A ledger keeps, beside an allocator, which pointers its user holds and how each was asked for. The
user may do anything in any order as long as it gives back and stores to only what it holds; at any
time in between heaps may be exhausted and refused, and the system allocator may come to have other
memory or none. `WellFormed` is what holds of every ledger that can be reached
(`wellFormed_of_run`): the pool, its backend and the buffer are in order, and every block that is
held is owned by the heap of the slot that its state selects. `Change` lists what an event can make
of a ledger, so that whatever else is kept is shown once for each change.
-/

namespace HeapDomains

/-- A pointer that is held. -/
structure Grant where
  /-- The pointer that was given. -/
  pointer : Pointer
  /-- What the registers held. -/
  state : DomainState
  /-- The number of bytes that were asked for. -/
  size : Nat
  deriving DecidableEq

/-- Where a grant starts in the bootstrap buffer, if it is a claim. -/
def Grant.place? (g : Grant) : Option Nat := BootstrapBuffer.place? g.pointer

/-- An allocator and what its user holds. -/
structure Ledger (slots : Nat) where
  /-- The allocator. -/
  allocator : DomainAllocator slots
  /-- The pointers that are held, in the order in which they were given. -/
  grants : List Grant

/-- What can be done with an allocator, and what can happen to its backend. -/
inductive AllocatorEvent where
  /-- A block is asked for. -/
  | allocate (state : DomainState) (size : Nat)
  /-- A block of zeros is asked for. -/
  | allocateZeroed (state : DomainState) (count size : Nat)
  /-- What is at a pointer is to be moved. -/
  | resize (state : DomainState) (pointer : Pointer) (size : Nat)
  /-- What is at a pointer is given back. -/
  | free (pointer : Pointer)
  /-- Bytes are stored in what is at a pointer. -/
  | store (pointer : Pointer) (start : Nat) (bytes : List UInt8)
  /-- The initialization starts. -/
  | beginInitialization
  /-- The initialization is to end. -/
  | finishInitialization
  /-- The backend makes no more heaps, or makes them again. -/
  | refuseHeaps (on : Bool)
  /-- A heap serves nothing more, or serves again. -/
  | exhaust (heap : HeapHandle) (on : Bool)
  /-- The system allocator has other memory from now on, or none for some sizes. -/
  | supply (memory : Nat → Option Contents)

/-- What the registers hold when a heap may be asked for. -/
def AllocatorEvent.state? : AllocatorEvent → Option DomainState
  | allocate state _ | allocateZeroed state _ _ | resize state _ _ => some state
  | _ => none

namespace Ledger

variable {slots : Nat}

/-- A new allocator, of which nothing is held. -/
def empty : Ledger slots := ⟨DomainAllocator.empty, []⟩

/-- Whether something that is held starts at a pointer. -/
def holds (l : Ledger slots) (p : Pointer) : Bool := l.grants.any (·.pointer == p)

/-- Whether an event keeps to what is held. The null pointer may be given back and moved, too. -/
def permits (l : Ledger slots) : AllocatorEvent → Bool
  | .resize _ p _ => p.isNull || l.holds p
  | .free p => p.isNull || l.holds p
  | .store p start bytes =>
    l.grants.any fun g => g.pointer == p && start + bytes.length ≤ g.size
  | _ => true

/-- The ledger with the answer to a request. -/
def given (l : Ledger slots) (answer : DomainAllocator slots × Pointer) (state : DomainState)
    (size : Nat) : Ledger slots :=
  ⟨answer.1, if answer.2.isNull then l.grants else l.grants ++ [⟨answer.2, state, size⟩]⟩

/-- The ledger when what is at a pointer is not held any more. -/
def withdrawn (l : Ledger slots) (p : Pointer) : Ledger slots :=
  { l with grants := l.grants.filter (·.pointer != p) }

/-- The ledger after what is at a pointer was to be moved; it is still held when it was not. -/
def moved (l : Ledger slots) (answer : DomainAllocator slots × Pointer) (state : DomainState)
    (p : Pointer) (size : Nat) : Ledger slots :=
  (if answer.2.isNull then l else l.withdrawn p).given answer state size

/-- The ledger after an event. -/
def step (l : Ledger slots) : AllocatorEvent → Ledger slots
  | .allocate state size => l.given (l.allocator.allocate state size) state size
  | .allocateZeroed state count size =>
    l.given (l.allocator.allocateZeroed state count size) state (count * size)
  | .resize state p size => l.moved (l.allocator.resize state p size) state p size
  | .free p => { l.withdrawn p with allocator := l.allocator.free p }
  | .store p start bytes => { l with allocator := l.allocator.write (p.shift start) bytes }
  | .beginInitialization => { l with allocator := l.allocator.beginInitialization }
  | .finishInitialization =>
    match l.allocator.finishInitialization with
    | .ok allocator => { l with allocator := allocator }
    | .error _ => l
  | .refuseHeaps on =>
    { l with allocator := l.allocator.setBackend (l.allocator.backend.setRefusing on) }
  | .exhaust heap on =>
    { l with allocator := l.allocator.setBackend (l.allocator.backend.setExhausted heap on) }
  | .supply memory =>
    { l with allocator := l.allocator.setBackend (l.allocator.backend.setMemory memory) }

/-- The ledger after some events, if each of them keeps to what is held then. -/
def run (l : Ledger slots) : List AllocatorEvent → Option (Ledger slots)
  | [] => some l
  | e :: events => if l.permits e then (l.step e).run events else none

/-- Where the claims start that are held. -/
def claims (l : Ledger slots) : List Nat := l.grants.filterMap Grant.place?

/-- A ledger is in order. -/
structure WellFormed (l : Ledger slots) : Prop where
  /-- Every slot has a heap of its own. -/
  pool : l.allocator.pool.WellFormed
  /-- The backend accounts for its blocks. -/
  backend : l.allocator.pool.backend.WellFormed
  /-- The buffer holds the claims that are held. -/
  bootstrap : l.allocator.bootstrap.Holds l.claims
  /-- No pointer is given again while it is held. -/
  pointers_nodup : (l.grants.map Grant.pointer).Nodup
  /-- A block is owned by the heap of the slot that its state selects. -/
  routed : ∀ g ∈ l.grants, g.place? = none →
    ∃ k, l.allocator.pool.lookup (selectSlot g.state slots) = some k ∧
      l.allocator.pool.backend.owner? g.pointer = some k

variable {l l' : Ledger slots} {a' : DomainAllocator slots} {pool : HeapPool slots} {g : Grant}
  {state : DomainState} {p q : Pointer} {k : HeapHandle} {size i : Nat} {c : Contents}
  {e : AllocatorEvent}

/-- What an event can make of a ledger. -/
inductive Change (l : Ledger slots) : Ledger slots → Prop
  /-- Nothing is done. -/
  | nothing : Change l l
  /-- Something is asked for. -/
  | given {a' : DomainAllocator slots} {q : Pointer} {state : DomainState} {size : Nat} :
    l.allocator.Outcome state size a' q → Change l (l.given (a', q) state size)
  /-- Something that is held is to be moved. -/
  | moved {g : Grant} {a' : DomainAllocator slots} {q : Pointer} {state : DomainState}
    {size : Nat} :
    g ∈ l.grants → l.allocator.Move state g.pointer size a' q →
    Change l (l.moved (a', q) state g.pointer size)
  /-- Something that is held is given back. -/
  | freed {g : Grant} :
    g ∈ l.grants →
    Change l { l.withdrawn g.pointer with allocator := l.allocator.free g.pointer }
  /-- Bytes are stored in something that is held. -/
  | stored {g : Grant} {start : Nat} {bytes : List UInt8} :
    g ∈ l.grants → start + bytes.length ≤ g.size →
    Change l { l with allocator := l.allocator.write (g.pointer.shift start) bytes }
  /-- The initialization starts or ends. -/
  | initializing (on : Bool) :
    Change l { l with allocator := { l.allocator with initializing := on } }
  /-- The backend makes no more heaps, or makes them again. -/
  | refusing (on : Bool) :
    Change l { l with allocator := l.allocator.setBackend (l.allocator.backend.setRefusing on) }
  /-- A heap serves nothing more, or serves again. -/
  | exhausted (heap : HeapHandle) (on : Bool) :
    Change l
      { l with allocator := l.allocator.setBackend (l.allocator.backend.setExhausted heap on) }
  /-- The system allocator has other memory from now on. -/
  | supplied (memory : Nat → Option Contents) :
    Change l
      { l with allocator := l.allocator.setBackend (l.allocator.backend.setMemory memory) }

/-- No pointer is held twice when one more is held that was not held before. -/
theorem nodup_pointers_concat {grants : List Grant} :
    ((grants ++ [g]).map Grant.pointer).Nodup ↔
      (∀ other ∈ grants, other.pointer ≠ g.pointer) ∧ (grants.map Grant.pointer).Nodup := by
  rw [List.map_append, List.map_singleton, ← List.concat_eq_append, List.nodup_concat,
    List.mem_map, not_exists]
  simp only [not_and, ne_eq]

/-- What is held is still held when more is given. -/
theorem mem_grants_given (hg : g ∈ l.grants) : g ∈ (l.given (a', q) state size).grants := by
  unfold given
  dsimp only
  split
  · exact hg
  · exact List.mem_append_left _ hg

/-- What is given is held. -/
theorem mem_given (hq : q ≠ .null) :
    ⟨q, state, size⟩ ∈ (l.given (a', q) state size).grants := by
  unfold given
  rw [if_neg (by simpa [Pointer.isNull] using hq)]
  exact List.mem_append_right _ (List.mem_singleton_self _)

/-- To move something is to be given the new place and to give the old one back then. -/
theorem moved_eq_free {a : DomainAllocator slots} (hq : q ≠ .null) (hg : g ∈ l.grants)
    (hnodup : ((l.given (a', q) state size).grants.map Grant.pointer).Nodup) :
    l.moved (a.free g.pointer, q) state g.pointer size =
      { withdrawn ⟨a, (l.given (a', q) state size).grants⟩ g.pointer with
        allocator := a.free g.pointer } := by
  have hnull : ¬ q.isNull = true := by simpa [Pointer.isNull] using hq
  have hgrants : (l.given (a', q) state size).grants = l.grants ++ [⟨q, state, size⟩] :=
    if_neg hnull
  rw [hgrants] at hnodup ⊢
  -- What was given is not what is given back, since no pointer is held twice.
  have hne : q ≠ g.pointer := ((nodup_pointers_concat.1 hnodup).1 g hg).symm
  have hkept : (l.grants ++ [Grant.mk q state size]).filter (·.pointer != g.pointer) =
      l.grants.filter (·.pointer != g.pointer) ++ [⟨q, state, size⟩] := by
    rw [List.filter_append, List.filter_cons, if_pos (bne_iff_ne.2 hne), List.filter_nil]
  rw [moved, if_neg hnull, given, if_neg hnull, withdrawn, withdrawn, hkept]

/-- A new ledger is in order. -/
theorem wellFormed_empty : (empty : Ledger slots).WellFormed where
  pool := ⟨List.nodup_nil, rfl⟩
  backend := Backend.wellFormed_empty
  bootstrap := BootstrapBuffer.holds_empty
  pointers_nodup := List.nodup_nil
  routed _ hg := absurd hg List.not_mem_nil

namespace WellFormed

/-- What is held and is no claim is a live block. -/
theorem exists_block (h : l.WellFormed) (hg : g ∈ l.grants) (hplace : g.place? = none) :
    ∃ block, l.allocator.pool.backend.block? g.pointer = some block := by
  obtain ⟨k, -, howned⟩ := h.routed g hg hplace
  obtain ⟨block, hblock, -⟩ := Option.map_eq_some_iff.1 howned
  exact ⟨block, hblock⟩

/-- Whatever is held is no null pointer. -/
theorem pointer_ne_null (h : l.WellFormed) (hg : g ∈ l.grants) : g.pointer ≠ .null := by
  intro hnull
  obtain ⟨block, hblock⟩ := h.exists_block hg (by rw [Grant.place?, hnull]; rfl)
  rw [hnull] at hblock
  cases hblock

/-! ## What changes no grant -/

/-- What the backend does without a change of owners keeps a ledger in order. -/
theorem setBackend (h : l.WellFormed) {b : Backend} (hb : b.WellFormed)
    (hheaps : b.heaps.length = l.allocator.pool.backend.heaps.length)
    (howner : ∀ q, b.owner? q = l.allocator.pool.backend.owner? q) :
    WellFormed { l with allocator := l.allocator.setBackend b } where
  pool := h.pool.setBackend hheaps
  backend := hb
  bootstrap := h.bootstrap
  pointers_nodup := h.pointers_nodup
  routed g hg hplace := by
    obtain ⟨k, hk, howned⟩ := h.routed g hg hplace
    exact ⟨k, hk, (howner g.pointer).trans howned⟩

/-- What is stored keeps a ledger in order, wherever it is stored. -/
theorem write (h : l.WellFormed) (p : Pointer) (bytes : List UInt8) :
    WellFormed { l with allocator := l.allocator.write p bytes } := by
  unfold DomainAllocator.write
  split
  · exact ⟨h.pool, h.backend, h.bootstrap.write .., h.pointers_nodup, h.routed⟩
  · exact h.setBackend (h.backend.write ..) (Backend.length_heaps_write ..)
      fun q => Backend.owner?_write ..

/-- Contents that are changed keep a ledger in order. -/
theorem modifyContents (h : l.WellFormed) (id : Nat) (f : Contents → Contents) :
    WellFormed { l with
      allocator := l.allocator.setBackend (l.allocator.pool.backend.modifyContents id f) } :=
  h.setBackend (h.backend.modifyContents id f) rfl fun _ => Backend.owner?_modifyContents ..

/-- A heap that is had for a slot keeps a ledger in order. -/
theorem provide (h : l.WellFormed) (hk : l.allocator.pool.heapForState state = .ok (pool, k)) :
    WellFormed { l with allocator := { l.allocator with pool := pool } } where
  pool := h.pool.heapFor hk
  backend := HeapPool.wellFormed_backend_heapFor h.backend hk
  bootstrap := h.bootstrap
  pointers_nodup := h.pointers_nodup
  routed g hg hplace := by
    have hprovides := HeapPool.provides_of_heapFor hk
    obtain ⟨k', hk', howned⟩ := h.routed g hg hplace
    refine ⟨k', hprovides.lookup_of_lookup _ _ hk', ?_⟩
    rw [← howned]
    exact Backend.owner?_congr hprovides.blocks_eq g.pointer

/-! ## What adds a grant -/

/-- A claim keeps a ledger in order. -/
theorem claim (h : l.WellFormed) {buffer : BootstrapBuffer} {start : Nat}
    (hclaim : l.allocator.bootstrap.claim size = .ok (buffer, start)) (state : DomainState) :
    WellFormed ⟨{ l.allocator with bootstrap := buffer },
      l.grants ++ [⟨.buffer start, state, size⟩]⟩ := by
  have hplace : Grant.place? ⟨.buffer start, state, size⟩ = some start :=
    BootstrapBuffer.place?_buffer (BootstrapBuffer.start_lt_of_claim hclaim)
  obtain ⟨hfresh, hholds⟩ := h.bootstrap.claim hclaim
  refine ⟨h.pool, h.backend, ?_, ?_, ?_⟩
  · refine hholds.perm ?_
    change (start :: l.claims).Perm ((l.grants ++ [_]).filterMap Grant.place?)
    rw [List.filterMap_append, List.filterMap_cons_some hplace]
    exact (List.perm_append_singleton start l.claims).symm
  · refine nodup_pointers_concat.2 ⟨fun g hg hpointer => ?_, h.pointers_nodup⟩
    refine hfresh (List.mem_filterMap.2 ⟨g, hg, ?_⟩)
    rw [Grant.place?, hpointer]
    exact hplace
  · intro g hg hnone
    rcases List.mem_append.1 hg with hg | hg
    · exact h.routed g hg hnone
    · rw [List.mem_singleton.1 hg, hplace] at hnone
      cases hnone

/-- A block that the heap of the selected slot serves keeps a ledger in order. -/
theorem serve (h : l.WellFormed)
    (hk : l.allocator.pool.lookup (selectSlot state slots) = some k)
    (hi : l.allocator.pool.backend.CanServe k size i c) :
    WellFormed ⟨l.allocator.setBackend (l.allocator.pool.backend.serve i size c).1,
      l.grants ++ [⟨.block l.allocator.pool.backend.nextBlock 0, state, size⟩]⟩ := by
  have howner := h.backend.owner?_serve i size c
  have hfresh : ∀ g ∈ l.grants, g.pointer ≠ .block l.allocator.pool.backend.nextBlock 0 := by
    intro g hg heq
    obtain ⟨block, hblock⟩ := h.exists_block hg (by rw [Grant.place?, heq]; rfl)
    rw [heq, h.backend.block?_nextBlock] at hblock
    cases hblock
  refine ⟨h.pool.setBackend (Backend.length_heaps_serve ..), h.backend.serve hi.lt size c, ?_,
    nodup_pointers_concat.2 ⟨hfresh, h.pointers_nodup⟩, ?_⟩
  · change l.allocator.bootstrap.Holds ((l.grants ++ [_]).filterMap Grant.place?)
    rw [List.filterMap_append, List.filterMap_cons_none rfl, List.filterMap_nil, List.append_nil]
    exact h.bootstrap
  · intro g hg hplace
    change ∃ k, _ ∧ (l.allocator.pool.backend.serve i size c).1.owner? g.pointer = some k
    rw [howner]
    rcases List.mem_append.1 hg with hg | hg
    · rw [if_neg (hfresh g hg)]
      exact h.routed g hg hplace
    · rw [List.mem_singleton.1 hg, if_pos rfl]
      exact ⟨k, hk, by rw [h.pool.eq_ofIndex hk hi.index?_eq]⟩

/-- A ledger stays in order whatever a request comes to. -/
theorem given (h : l.WellFormed) (houtcome : l.allocator.Outcome state size a' q) :
    (l.given (a', q) state size).WellFormed := by
  cases houtcome with
  | nothing => exact h
  | refused hk => exact h.provide hk
  | claimed _ hclaim => exact h.claim hclaim state
  | served hk hi => exact (h.provide hk).serve (HeapPool.provides_of_heapFor hk).lookup_eq hi

/-! ## What takes a grant away -/

/-- What is given back keeps a ledger in order. -/
theorem free (h : l.WellFormed) (hg : g ∈ l.grants) :
    WellFormed { l.withdrawn g.pointer with allocator := l.allocator.free g.pointer } := by
  -- Its pointer is held once, so all else is held still.
  have hperm := perm_cons_filter_ne h.pointers_nodup hg
  have hclaims := hperm.filterMap Grant.place?
  have hnodup : ((l.withdrawn g.pointer).grants.map Grant.pointer).Nodup :=
    h.pointers_nodup.sublist (List.filter_sublist.map _)
  have hmem : ∀ other ∈ (l.withdrawn g.pointer).grants,
      other ∈ l.grants ∧ other.pointer ≠ g.pointer := fun other hother =>
    (List.mem_filter.1 hother).imp_right bne_iff_ne.1
  unfold DomainAllocator.free
  split
  · next start hplace =>
    rw [List.filterMap_cons_some (f := Grant.place?) hplace] at hclaims
    exact ⟨h.pool, h.backend, (h.bootstrap.perm hclaims).release, hnodup,
      fun other hother => h.routed other (hmem other hother).1⟩
  · next hplace =>
    rw [List.filterMap_cons_none (f := Grant.place?) hplace] at hclaims
    refine ⟨h.pool.setBackend (Backend.length_heaps_free ..), h.backend.free _,
      h.bootstrap.perm hclaims, hnodup, fun other hother hnone => ?_⟩
    obtain ⟨hold, hne⟩ := hmem other hother
    obtain ⟨k, hk, howned⟩ := h.routed other hold hnone
    refine ⟨k, hk, ?_⟩
    change (l.allocator.pool.backend.free g.pointer).owner? other.pointer = some k
    rw [Backend.owner?_free, if_neg hne]
    exact howned

/-- Whatever was given and filled before, what is given back then keeps a ledger in order. -/
theorem moved_of_given {a : DomainAllocator slots}
    (h : WellFormed ⟨a, (l.given (a', q) state size).grants⟩) (hq : q ≠ .null)
    (hg : g ∈ l.grants) : (l.moved (a.free g.pointer, q) state g.pointer size).WellFormed := by
  rw [moved_eq_free hq hg h.pointers_nodup]
  exact h.free (mem_grants_given hg)

/-- A ledger stays in order whatever becomes of what is to be moved. -/
theorem moved (h : l.WellFormed) (hg : g ∈ l.grants)
    (hmove : l.allocator.Move state g.pointer size a' q) :
    (l.moved (a', q) state g.pointer size).WellFormed := by
  cases hmove with
  | failed houtcome => exact h.given houtcome
  | claim _ houtcome hq => exact ((h.given houtcome).write q _).moved_of_given hq hg
  | block _ hk _ hi =>
    exact ((h.given (.served hk hi)).modifyContents _ _).moved_of_given (by simp) hg

/-! ## Steps and runs -/

/-- Nothing is held at the null pointer. -/
theorem withdrawn_null (h : l.WellFormed) : l.withdrawn .null = l := by
  have hall : ∀ g ∈ l.grants, (g.pointer != .null) = true := fun g hg =>
    bne_iff_ne.2 (h.pointer_ne_null hg)
  rw [withdrawn, List.filter_eq_self.2 hall]

/-- Every event that keeps to what is held is one of the changes. -/
theorem change (h : l.WellFormed) (hpermits : l.permits e = true) : l.Change (l.step e) := by
  -- A pointer that may be given back and moved is null or held.
  have hheld : ∀ p, (p.isNull || l.holds p) = true → p = .null ∨ ∃ g ∈ l.grants, g.pointer = p := by
    intro p hp
    simpa [Pointer.isNull, holds] using hp
  cases e with
  | allocate state size => exact .given (DomainAllocator.outcome_allocate ..)
  | allocateZeroed state count size => exact .given (DomainAllocator.outcome_allocateZeroed ..)
  | resize state p size =>
    by_cases hnull : p = .null
    · subst hnull
      change l.Change (l.moved (l.allocator.allocate state size) state .null size)
      rw [Ledger.moved, h.withdrawn_null, ite_self]
      exact .given (DomainAllocator.outcome_allocate ..)
    · obtain ⟨g, hg, rfl⟩ := (hheld p hpermits).resolve_left hnull
      exact .moved hg (DomainAllocator.move_resize _ _ hnull _)
  | free p =>
    rcases hheld p hpermits with rfl | ⟨g, hg, rfl⟩
    · change l.Change { l.withdrawn .null with allocator := l.allocator }
      rw [h.withdrawn_null]
      exact .nothing
    · exact .freed hg
  | store p start bytes =>
    obtain ⟨g, hg, hfits⟩ := List.any_eq_true.1 hpermits
    rw [Bool.and_eq_true, beq_iff_eq, decide_eq_true_eq] at hfits
    obtain ⟨rfl, hfits⟩ := hfits
    exact .stored hg hfits
  | beginInitialization => exact .initializing true
  | finishInitialization =>
    rw [Ledger.step, DomainAllocator.finishInitialization]
    cases l.allocator.initializing with
    | true => exact .initializing false
    | false => exact .nothing
  | refuseHeaps on => exact .refusing on
  | exhaust heap on => exact .exhausted heap on
  | supply memory => exact .supplied memory

/-- Every change keeps a ledger in order. -/
theorem of_change (h : l.WellFormed) (hchange : l.Change l') : l'.WellFormed := by
  cases hchange with
  | nothing => exact h
  | given houtcome => exact h.given houtcome
  | moved hg hmove => exact h.moved hg hmove
  | freed hg => exact h.free hg
  | stored _ _ => exact h.write ..
  | initializing on => exact ⟨h.pool, h.backend, h.bootstrap, h.pointers_nodup, h.routed⟩
  | refusing on => exact h.setBackend (h.backend.setRefusing on) rfl fun _ => rfl
  | exhausted heap on =>
    refine h.setBackend (h.backend.setExhausted heap on) (Backend.length_heaps_setExhausted ..) ?_
    exact Backend.owner?_congr (Backend.blocks_setExhausted ..)
  | supplied memory => exact h.setBackend (h.backend.setMemory memory) rfl fun _ => rfl

/-- Every event that keeps to what is held keeps a ledger in order. -/
theorem step (h : l.WellFormed) (hpermits : l.permits e = true) : (l.step e).WellFormed :=
  h.of_change (h.change hpermits)

/-- Every run keeps a ledger in order. -/
theorem run (h : l.WellFormed) {events : List AllocatorEvent} (hrun : l.run events = some l') :
    l'.WellFormed := by
  induction events generalizing l with
  | nil =>
    cases hrun
    exact h
  | cons e events ih =>
    rw [Ledger.run] at hrun
    split at hrun
    · next hpermits => exact ih (h.step hpermits) hrun
    · cases hrun

end WellFormed

/-- Whatever is done with a new allocator, its ledger is in order. -/
theorem wellFormed_of_run {events : List AllocatorEvent} (h : empty.run events = some l) :
    l.WellFormed :=
  wellFormed_empty.run h

end Ledger

end HeapDomains
