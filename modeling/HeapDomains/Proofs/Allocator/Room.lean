import HeapDomains.Proofs.Allocator.Claims

/-!
# What is held has room

Every block that is held has the size that was asked for, one byte at least, and every live block is
held. With the claims, which are laid out in the buffer, this says of everything that is held that
it is live, with room for the bytes that were asked for (`Housed.isLive_iff`). It is so whatever is
done with an allocator and its buffer (`housed_of_runBuffer`).
-/

namespace HeapDomains

open BootstrapBuffer (Claim capacity place?)

variable {slots : Nat} {l l' : Ledger slots} {a a' : DomainAllocator slots} {g : Grant}
  {state : DomainState} {p q : Pointer} {size : Nat} {bytes : List UInt8} {e : BufferEvent}

/-! ## The sizes of blocks -/

namespace Backend

variable {b b' : Backend}

/-- The size of the live block at a pointer. -/
def size? (b : Backend) (p : Pointer) : Option Nat := (b.block? p).map Block.size

/-- Sizes depend on the blocks only. -/
theorem size?_congr (h : b'.blocks = b.blocks) (q : Pointer) : b'.size? q = b.size? q := by
  rw [size?, size?, block?_congr h]

/-- A block that is served has a byte at least. -/
theorem WellFormed.size?_serve (hb : b.WellFormed) (i size : Nat) (c : Contents) (q : Pointer) :
    (b.serve i size c).1.size? q =
      if q = .block b.nextBlock 0 then some (max size 1) else b.size? q := by
  rw [size?, size?, hb.block?_serve]
  split <;> rfl

/-- Changes of contents leave the sizes. -/
theorem size?_modifyContents (b : Backend) (id : Nat) (f : Contents → Contents) (q : Pointer) :
    (b.modifyContents id f).size? q = b.size? q := by
  rw [size?, size?, block?_modifyContents, Option.map_map]
  congr 1
  funext block
  rw [Function.comp_apply]
  split <;> rfl

end Backend

namespace DomainAllocator

/-- A place in the buffer is no block. -/
theorem block?_eq_none_of_place? {b : Backend} {start : Nat} (hp : place? p = some start) :
    b.block? p = none := by
  obtain ⟨rfl, -⟩ := BootstrapBuffer.place?_eq_some hp
  rfl

/-- Nothing but the block at a pointer is given back with it. -/
theorem block?_free (a : DomainAllocator slots) (p q : Pointer) :
    (a.free p).pool.backend.block? q = if q = p then none else a.pool.backend.block? q := by
  unfold free
  split
  · next start hp =>
    split
    · next heq => exact block?_eq_none_of_place? (heq ▸ hp)
    · rfl
  · exact Backend.block?_free ..

/-- What is stored leaves the sizes of blocks. -/
theorem size?_write (a : DomainAllocator slots) (p : Pointer) (bytes : List UInt8) (q : Pointer) :
    (a.write p bytes).pool.backend.size? q = a.pool.backend.size? q := by
  unfold write
  split
  · rfl
  · change (a.backend.write p bytes).size? q = a.backend.size? q
    unfold Backend.write
    split
    · exact Backend.size?_modifyContents ..
    · rfl

end DomainAllocator

/-! ## Ledgers with room -/

namespace Ledger

/-- Something that is held is live, with room for the bytes that were asked for. -/
structure IsLive (l : Ledger slots) (g : Grant) : Prop where
  /-- It is held. -/
  mem : g ∈ l.grants
  /-- A block is live, and has that many bytes at least. -/
  block : g.place? = none →
    ∃ block, l.allocator.backend.block? g.pointer = some block ∧ g.size ≤ block.size
  /-- A claim has that many bytes in the buffer, and shares none with another one. -/
  claim : ∀ start, g.place? = some start → start + g.size ≤ capacity ∧
    ∀ c ∈ l.heldClaims, c ≠ ⟨start, g.size⟩ → Claim.Apart ⟨start, g.size⟩ c

/-- Every block that is held has its size, and every live block is held. -/
structure Housed (l : Ledger slots) : Prop extends LaidOut l where
  /-- A block that is held has as many bytes as were asked for, one at least. -/
  size?_eq : ∀ g ∈ l.grants, g.place? = none →
    l.allocator.pool.backend.size? g.pointer = some (max g.size 1)
  /-- Every live block is held. -/
  held : ∀ p n, l.allocator.pool.backend.size? p = some n → ∃ g ∈ l.grants, g.pointer = p

/-- A new ledger has room for all that is held, which is nothing. -/
theorem housed_empty : (empty : Ledger slots).Housed where
  toLaidOut := laidOut_empty
  size?_eq _ hg := absurd hg List.not_mem_nil
  held p n hsize := by
    obtain ⟨block, hblock, -⟩ := Option.map_eq_some_iff.1 hsize
    exact absurd (Backend.block?_eq_some hblock).1 List.not_mem_nil

namespace Housed

/-- Room is left when the same is held and sizes stay. -/
theorem of_size? (hl : l.Housed) (hlaid : l'.LaidOut) (hgrants : l'.grants = l.grants)
    (hsize : ∀ q, l'.allocator.pool.backend.size? q = l.allocator.pool.backend.size? q) :
    l'.Housed where
  toLaidOut := hlaid
  size?_eq g hg hplace := by
    rw [hsize]
    exact hl.size?_eq g (hgrants ▸ hg) hplace
  held p n hp := by
    rw [hsize] at hp
    rw [hgrants]
    exact hl.held p n hp

/-- Room is left when one more thing is held that has it. -/
theorem concat (hl : l.Housed) (hlaid : l'.LaidOut) (hgrants : l'.grants = l.grants ++ [g])
    (hnew : g.place? = none →
      l'.allocator.pool.backend.size? g.pointer = some (max g.size 1))
    (hold : ∀ q, q ≠ g.pointer →
      l'.allocator.pool.backend.size? q = l.allocator.pool.backend.size? q) :
    l'.Housed := by
  have hfresh : ∀ other ∈ l.grants, other.pointer ≠ g.pointer :=
    (nodup_pointers_concat.1 (hgrants ▸ hlaid.pointers_nodup)).1
  refine ⟨hlaid, fun other hother hplace => ?_, fun p n hp => ?_⟩
  · rcases List.mem_append.1 (hgrants ▸ hother) with hother | hother
    · rw [hold _ (hfresh other hother)]
      exact hl.size?_eq other hother hplace
    · obtain rfl := List.mem_singleton.1 hother
      exact hnew hplace
  · rw [hgrants]
    by_cases hpointer : p = g.pointer
    · exact ⟨g, List.mem_append_right _ (List.mem_singleton_self g), hpointer.symm⟩
    · rw [hold p hpointer] at hp
      obtain ⟨other, hother, heq⟩ := hl.held p n hp
      exact ⟨other, List.mem_append_left _ hother, heq⟩

/-- A claim that succeeds takes no room from blocks. -/
theorem claim (hl : l.Housed) {buffer : BootstrapBuffer} {start : Nat}
    (hclaim : l.allocator.bootstrap.claim size = .ok (buffer, start)) (state : DomainState) :
    Housed ⟨{ l.allocator with bootstrap := buffer },
      l.grants ++ [⟨.buffer start, state, size⟩]⟩ := by
  refine hl.concat (hl.toLaidOut.claim hclaim state) rfl (fun hplace => ?_) fun _ _ => rfl
  rw [Grant.place?, BootstrapBuffer.place?_buffer (BootstrapBuffer.start_lt_of_claim hclaim)]
    at hplace
  cases hplace

/-- There is room whatever a request comes to. -/
theorem given (hl : l.Housed) (houtcome : l.allocator.Outcome state size a' q) :
    (l.given (a', q) state size).Housed := by
  have hlaid : (l.given (a', q) state size).LaidOut := hl.toLaidOut.given houtcome
  cases houtcome with
  | nothing => exact hl
  | refused hk =>
    have hprovides := HeapPool.provides_of_heapFor hk
    exact hl.of_size? hlaid rfl (Backend.size?_congr hprovides.blocks_eq)
  | claimed _ hclaim => exact hl.claim hclaim state
  | @served pool k i c hk hi =>
    have hprovides := HeapPool.provides_of_heapFor hk
    have hserve : ∀ q, (pool.backend.serve i size c).1.size? q =
        if q = .block pool.backend.nextBlock 0 then some (max size 1) else pool.backend.size? q :=
      (HeapPool.wellFormed_backend_heapFor hl.backend hk).size?_serve i size c
    refine hl.concat hlaid rfl (fun _ => ?_) fun q hq => ?_
    · exact (hserve _).trans (if_pos rfl)
    · exact ((hserve q).trans (if_neg hq)).trans (Backend.size?_congr hprovides.blocks_eq q)

/-- There is room when something is given back. -/
theorem free (hl : l.Housed) (hg : g ∈ l.grants) :
    Housed { l.withdrawn g.pointer with allocator := l.allocator.free g.pointer } := by
  have hsize : ∀ q, (l.allocator.free g.pointer).pool.backend.size? q =
      if q = g.pointer then none else l.allocator.pool.backend.size? q := by
    intro q
    rw [Backend.size?, DomainAllocator.block?_free]
    split <;> rfl
  refine ⟨hl.toLaidOut.free hg, fun other hother hplace => ?_, fun p n hp => ?_⟩
  · obtain ⟨hother, hne⟩ := List.mem_filter.1 hother
    exact (hsize _).trans ((if_neg (bne_iff_ne.1 hne)).trans (hl.size?_eq other hother hplace))
  · replace hp := (hsize p).symm.trans hp
    split at hp
    · cases hp
    · next hne =>
      obtain ⟨other, hother, rfl⟩ := hl.held p n hp
      exact ⟨other, List.mem_filter.2 ⟨hother, bne_iff_ne.2 hne⟩, rfl⟩

/-- There is room when the old place is given back after a new one was given and filled. -/
theorem moved_of_given (hl : Housed ⟨a, (l.given (a', q) state size).grants⟩) (hq : q ≠ .null)
    (hg : g ∈ l.grants) : (l.moved (a.free g.pointer, q) state g.pointer size).Housed := by
  rw [moved_eq_free hq hg hl.pointers_nodup]
  exact hl.free (mem_grants_given hg)

/-- There is room whatever becomes of what is to be moved. -/
theorem moved (hl : l.Housed) (hg : g ∈ l.grants)
    (hmove : l.allocator.Move state g.pointer size a' q) :
    (l.moved (a', q) state g.pointer size).Housed := by
  cases hmove with
  | failed houtcome => exact hl.given houtcome
  | @claim a' q start _ houtcome hq =>
    have hcopied : LaidOut ⟨a'.write q (a'.bootstrap.read start
        (min (BootstrapBuffer.remainingFrom start) size)), (l.given (a', q) state size).grants⟩ := by
      refine (hl.toLaidOut.given houtcome).copy_given hq ?_
      rw [BootstrapBuffer.read, Contents.length_read]
      exact min_le_right _ _
    have hfilled := (hl.given houtcome).of_size? hcopied rfl fun p => a'.size?_write q _ p
    exact hfilled.moved_of_given hq hg
  | @block pool k old i c _ hk _ hi =>
    have hgiven := hl.given (.served hk hi)
    have hcopied := hgiven.toWellFormed.modifyContents pool.backend.nextBlock fun fresh =>
      fresh.copy old.contents (min old.size size)
    have hfilled := hgiven.of_size? ⟨hcopied, hgiven.layout⟩ rfl fun p =>
      (pool.backend.serve i size c).1.size?_modifyContents _ _ p
    exact hfilled.moved_of_given (by simp) hg

/-- Every change leaves room. -/
theorem of_change (hl : l.Housed) (hchange : l.Change l') : l'.Housed := by
  have hlaid : l'.LaidOut := hl.toLaidOut.of_change hchange
  cases hchange with
  | nothing => exact hl
  | given houtcome => exact hl.given houtcome
  | moved hg hmove => exact hl.moved hg hmove
  | freed hg => exact hl.free hg
  | stored _ _ => exact hl.of_size? hlaid rfl fun q => l.allocator.size?_write _ _ q
  | initializing _ => exact hl.of_size? hlaid rfl fun _ => rfl
  | refusing _ => exact hl.of_size? hlaid rfl fun _ => rfl
  | exhausted heap on =>
    exact hl.of_size? hlaid rfl (Backend.size?_congr (Backend.blocks_setExhausted _ heap on))
  | supplied _ => exact hl.of_size? hlaid rfl fun _ => rfl

/-- Every event that keeps to what is held leaves room. -/
theorem stepBuffer (hl : l.Housed) (hpermits : l.permitsBuffer e = true) :
    (l.stepBuffer e).Housed := by
  have hlaid : (l.stepBuffer e).LaidOut := hl.toLaidOut.stepBuffer hpermits
  cases e with
  | use e => exact hl.of_change (hl.change hpermits)
  | claim state size =>
    change (l.given (l.allocator.claimBootstrap size) state size).Housed
    unfold DomainAllocator.claimBootstrap
    split
    · next hclaim => exact hl.claim hclaim state
    · exact hl
  | fill p start bytes => exact hl.of_size? hlaid rfl fun q => l.allocator.size?_write _ _ q

/-- Every run leaves room. -/
theorem runBuffer (hl : l.Housed) {events : List BufferEvent}
    (hrun : l.runBuffer events = some l') : l'.Housed := by
  induction events generalizing l with
  | nil =>
    cases hrun
    exact hl
  | cons e events ih =>
    rw [Ledger.runBuffer] at hrun
    split at hrun
    · next hpermits => exact ih (hl.stepBuffer hpermits) hrun
    · cases hrun

/-- All that is held is live. -/
theorem isLive_iff (hl : l.Housed) : l.IsLive g ↔ g ∈ l.grants := by
  refine ⟨IsLive.mem, fun hg => ⟨hg, fun hplace => ?_, fun start hplace => ?_⟩⟩
  · obtain ⟨block, hblock, hsize⟩ := Option.map_eq_some_iff.1 (hl.size?_eq g hg hplace)
    exact ⟨block, hblock, hsize ▸ le_max_left _ _⟩
  · have hc : (⟨start, g.size⟩ : Claim) ∈ l.heldClaims :=
      List.mem_filterMap.2 ⟨g, hg, Grant.claim?_of_place?_eq_some hplace⟩
    refine ⟨?_, fun c hother hne => hl.layout.apart.forall hc hother hne.symm⟩
    calc start + g.size
      _ ≤ start + BootstrapBuffer.rounded g.size :=
        Nat.add_le_add_left (BootstrapBuffer.le_rounded _) _
      _ ≤ l.allocator.bootstrap.cursor := hl.layout.stop_le _ hc
      _ ≤ capacity := hl.layout.cursor_le

end Housed

/-- Whatever is done with a new allocator and its buffer, there is room for all that is held. -/
theorem housed_of_runBuffer {events : List BufferEvent}
    (hrun : empty.runBuffer events = some l) : l.Housed :=
  housed_empty.runBuffer hrun

end Ledger

end HeapDomains
