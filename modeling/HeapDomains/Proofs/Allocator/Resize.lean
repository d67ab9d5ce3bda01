import HeapDomains.Proofs.Allocator.Copy
import HeapDomains.Proofs.Allocator.Room
import Mathlib.Data.List.Perm.Subperm

/-!
# What is moved keeps its contents

A block is moved to a block, and a claim to a block or to another claim, which may begin before what
is copied to it ends. In all cases the new place starts with what the old one held, the old place is
given back, and nothing else is touched (`movedTo_of_resize`). More may be copied of a claim than it
holds, but no more than was asked for, so the copy ends within the new place. The new claim is
counted before the old one is released, so the buffer is cleared only when no claim is left.
-/

namespace HeapDomains

open BootstrapBuffer (Claim capacity place? remainingFrom rounded)

variable {slots : Nat} {a a' : DomainAllocator slots} {l l' : Ledger slots} {g : Grant}
  {state : DomainState} {p q r : Pointer} {size start count n i : Nat} {bytes : List UInt8}
  {c : Claim}

/-! ## Reading less -/

/-- What is read first is what is read when fewer bytes are read. -/
theorem Contents.take_read (c : Contents) (start : Nat) (h : n ≤ count) :
    (c.read start count).take n = c.read start n := by
  obtain ⟨rest, rfl⟩ := Nat.exists_eq_add_of_le h
  unfold read
  rw [← List.range'_append_1, List.map_append, List.take_left']
  rw [List.length_map, List.length_range']

/-- The first bytes of a memory are read from a copy of them. -/
theorem Contents.read_copy (c source : Contents) (h : n ≤ count) :
    (c.copy source count).read 0 n = source.read 0 n :=
  read_eq_read_iff.2 fun i _ hi => if_pos (by omega)

/-- What is read first at a pointer is what is read when fewer bytes are read. -/
theorem DomainAllocator.take_read (a : DomainAllocator slots) (p : Pointer) (h : n ≤ count) :
    (a.read p count).take n = a.read p n := by
  unfold read
  split
  · exact Contents.take_read _ _ h
  · unfold Backend.read
    split
    · split
      · exact Contents.take_read _ _ h
      · exact List.take_nil
    · exact List.take_nil

/-- From the start of a live block its contents are read. -/
theorem DomainAllocator.read_of_block? {block : Block}
    (h : a.pool.backend.block? p = some block) (count : Nat) :
    a.read p count = block.contents.read 0 count := by
  obtain ⟨-, rfl⟩ := Backend.block?_eq_some h
  exact Backend.read_of_block? h count

/-! ## All other blocks -/

/-- A change of contents touches one block. -/
theorem Backend.block?_modifyContents_of_ne {b : Backend} {id : Nat} (f : Contents → Contents)
    (hne : p ≠ .block id 0) : (b.modifyContents id f).block? p = b.block? p := by
  rw [block?_modifyContents]
  cases hp : b.block? p with
  | none => rfl
  | some block =>
    have hid : block.id ≠ id := fun heq => hne (heq ▸ (block?_eq_some hp).2)
    rw [Option.map_some, if_neg hid]

namespace DomainAllocator

/-- What is stored in a claim or from the start of a block on touches no other block. -/
theorem block?_write_of_ne (hne : p ≠ q)
    (hq : (∃ start, place? q = some start) ∨ ∃ block, a.pool.backend.block? q = some block) :
    (a.write q bytes).pool.backend.block? p = a.pool.backend.block? p := by
  rcases hq with ⟨start, hstart⟩ | ⟨block, hblock⟩
  · unfold write
    rw [hstart]
  · obtain ⟨-, rfl⟩ := Backend.block?_eq_some hblock
    exact Backend.block?_modifyContents_of_ne _ hne

/-- A request touches no block but the one that it is answered with. -/
theorem Outcome.block?_of_ne (h : a.Outcome state size a' q) (hb : a.pool.backend.WellFormed)
    (hne : p ≠ q) : a'.pool.backend.block? p = a.pool.backend.block? p := by
  cases h with
  | nothing => rfl
  | refused hk => exact Backend.block?_congr (HeapPool.provides_of_heapFor hk).blocks_eq p
  | claimed _ _ => rfl
  | served hk _ =>
    refine ((HeapPool.wellFormed_backend_heapFor hb hk).block?_serve _ _ _ p).trans ?_
    rw [if_neg hne]
    exact Backend.block?_congr (HeapPool.provides_of_heapFor hk).blocks_eq p

/-! ## The buffer -/

/-- A request releases no claim. -/
theorem Outcome.liveClaims_le (h : a.Outcome state size a' q) :
    a.bootstrap.liveClaims ≤ a'.bootstrap.liveClaims := by
  cases h with
  | nothing => exact le_rfl
  | refused _ => exact le_rfl
  | claimed _ hclaim =>
    obtain ⟨-, -, rfl⟩ := BootstrapBuffer.claim_eq_ok hclaim
    exact Nat.le_succ _
  | served _ _ => exact le_rfl

/-- A request that is answered with a place in the buffer is answered with its free end. -/
theorem Outcome.eq_cursor (h : a.Outcome state size a' q) (hq : place? q = some start) :
    start = a.bootstrap.cursor := by
  cases h with
  | nothing => cases hq
  | refused _ => cases hq
  | claimed _ hclaim =>
    rw [BootstrapBuffer.place?_buffer (BootstrapBuffer.start_lt_of_claim hclaim)] at hq
    obtain ⟨rfl, -⟩ := BootstrapBuffer.claim_eq_ok hclaim
    exact (Option.some.inj hq).symm
  | served _ _ => cases hq

/-- What is stored in the buffer from a place on leaves what is in front of it. -/
theorem contents_write_of_lt (h : ∀ start, place? q = some start → i < start) :
    (a.write q bytes).bootstrap.contents i = a.bootstrap.contents i := by
  unfold write
  split
  · next start hstart => exact Contents.write_eq_self (Or.inl (h start hstart))
  · rfl

end DomainAllocator

namespace Ledger

/-- There are more claims than one when there are two. -/
theorem one_lt_length_heldClaims {c' : Claim} (hc : c ∈ l.heldClaims) (hc' : c' ∈ l.heldClaims)
    (hne : c ≠ c') : 1 < l.heldClaims.length := by
  have hsub : [c, c'] ⊆ l.heldClaims := by simp [hc, hc']
  exact (List.subperm_of_subset (by simp [hne]) hsub).length_le

/-- No block is left where something has been moved from. -/
theorem block?_eq_none_of_move (hmove : l.allocator.Move state p size a' q) (hq : q ≠ .null) :
    a'.pool.backend.block? p = none := by
  cases hmove with
  | failed _ => exact absurd rfl hq
  | claim _ _ _ => rw [DomainAllocator.block?_free, if_pos rfl]
  | block _ _ _ _ => rw [DomainAllocator.block?_free, if_pos rfl]

/-- A move touches no other block. -/
theorem LaidOut.block?_of_move (h : l.LaidOut) (hmove : l.allocator.Move state p size a' q)
    (hq : q ≠ .null) (hp : r ≠ p) (hr : r ≠ q) :
    a'.pool.backend.block? r = l.allocator.pool.backend.block? r := by
  cases hmove with
  | failed _ => exact absurd rfl hq
  | claim _ houtcome _ =>
    rw [DomainAllocator.block?_free, if_neg hp,
      DomainAllocator.block?_write_of_ne hr (h.exists_place_or_block hq houtcome)]
    exact houtcome.block?_of_ne h.backend hr
  | @block pool k old i c _ hk _ hi =>
    rw [DomainAllocator.block?_free, if_neg hp]
    refine (Backend.block?_modifyContents_of_ne _ hr).trans ?_
    exact (DomainAllocator.Outcome.served hk hi).block?_of_ne h.backend hr

/-- A move touches no other claim. -/
theorem LaidOut.contents_of_move (h : l.LaidOut) (hg : g ∈ l.grants)
    (hmove : l.allocator.Move state g.pointer size a' q) (hq : q ≠ .null) (hc : c ∈ l.heldClaims)
    (hne : .buffer c.start ≠ g.pointer) (hi : c.Covers i) :
    a'.bootstrap.contents i = l.allocator.bootstrap.contents i := by
  cases hmove with
  | failed _ => exact absurd rfl hq
  | @claim a' q start hstart houtcome hq =>
    -- The old claim is held beside the other one, so there is a claim left when it is released.
    have hold : (⟨start, g.size⟩ : Claim) ∈ l.heldClaims :=
      List.mem_filterMap.2 ⟨g, hg, Grant.claim?_of_place?_eq_some hstart⟩
    have hother : c ≠ ⟨start, g.size⟩ := fun heq =>
      hne (by rw [heq, (BootstrapBuffer.place?_eq_some hstart).1])
    have hmore : 1 < a'.bootstrap.liveClaims := by
      refine lt_of_lt_of_le (one_lt_length_heldClaims hc hold hother) ?_
      rw [← h.layout.liveClaims_eq]
      exact houtcome.liveClaims_le
    -- The new claim starts behind all others.
    have hfront : ∀ place, place? q = some place → i < place := by
      intro place hplace
      rw [houtcome.eq_cursor hplace]
      exact lt_of_lt_of_le hi.2 (h.layout.stop_le c hc)
    generalize a'.bootstrap.read start (min (remainingFrom start) size) = bytes
    have hleft : 1 < (a'.write q bytes).bootstrap.liveClaims := by
      rwa [DomainAllocator.liveClaims_write]
    calc ((a'.write q bytes).free g.pointer).bootstrap.contents i
      _ = (a'.write q bytes).bootstrap.release.contents i := by
        unfold DomainAllocator.free
        rw [hstart]
      _ = (a'.write q bytes).bootstrap.contents i := by
        rw [BootstrapBuffer.contents_release hleft]
      _ = a'.bootstrap.contents i := DomainAllocator.contents_write_of_lt hfront
      _ = l.allocator.bootstrap.contents i := by rw [houtcome.contents_eq]
  | block hplace _ _ _ =>
    unfold DomainAllocator.free
    rw [hplace]
    rfl

/-- What a claim held can be read from the new place. -/
theorem LaidOut.read_of_resize_claim (h : l.LaidOut) (hg : g ∈ l.grants)
    (hplace : g.place? = some start) (hanswer : l.allocator.resize state g.pointer size = (a', q))
    (hq : q ≠ .null) :
    a'.read q (min g.size size) = l.allocator.read g.pointer (min g.size size) := by
  have hc : (⟨start, g.size⟩ : Claim) ∈ l.heldClaims :=
    List.mem_filterMap.2 ⟨g, hg, Grant.claim?_of_place?_eq_some hplace⟩
  have hpointer : g.pointer = .buffer start := (BootstrapBuffer.place?_eq_some hplace).1
  have hstart : place? g.pointer = some start := hplace
  rw [hpointer] at hanswer
  -- The claim ends in the buffer, so all of it is copied that fits the new place.
  have hle : min g.size size ≤ min (remainingFrom start) size := by
    have hstop : start + rounded g.size ≤ capacity :=
      (h.layout.stop_le _ hc).trans h.layout.cursor_le
    have hsize := BootstrapBuffer.le_rounded g.size
    rw [BootstrapBuffer.remainingFrom_natCast]
    omega
  have hcopied : a'.read q (min (remainingFrom start) size) =
      l.allocator.bootstrap.read start (min (remainingFrom start) size) := by
    have hcopied : l.allocator.copied state ⟨start, g.size⟩ size =
        l.allocator.bootstrap.read start (min (remainingFrom start) size) :=
      h.copied_eq hc (by rwa [hanswer])
    rwa [DomainAllocator.copied, hanswer] at hcopied
  calc a'.read q (min g.size size)
    _ = (a'.read q (min (remainingFrom start) size)).take (min g.size size) :=
      (a'.take_read q hle).symm
    _ = (l.allocator.bootstrap.read start (min (remainingFrom start) size)).take
        (min g.size size) := by rw [hcopied]
    _ = l.allocator.bootstrap.read start (min g.size size) := Contents.take_read _ _ hle
    _ = l.allocator.read g.pointer (min g.size size) := by
      unfold DomainAllocator.read
      rw [hstart]

/-- The new place of a block is a block that holds the first bytes of the old one. -/
theorem LaidOut.exists_block_of_move (h : l.LaidOut) (hplace : place? p = none)
    (hmove : l.allocator.Move state p size a' q) (hq : q ≠ .null) :
    ∃ old new fresh, l.allocator.pool.backend.block? p = some old ∧
      a'.pool.backend.block? q = some new ∧
      new.contents = Contents.copy fresh old.contents (min old.size size) := by
  cases hmove with
  | failed _ => exact absurd rfl hq
  | claim hstart _ _ => cases hplace.symm.trans hstart
  | @block pool k old i fresh _ hk hold hi =>
    have hbackend := HeapPool.wellFormed_backend_heapFor h.backend hk
    have hbefore : l.allocator.pool.backend.block? p = some old :=
      (Backend.block?_congr (HeapPool.provides_of_heapFor hk).blocks_eq p).symm.trans hold
    -- No block has had the number of the new one before.
    have hne : .block pool.backend.nextBlock 0 ≠ p := fun heq => by
      rw [← heq, hbackend.block?_nextBlock] at hold
      cases hold
    refine ⟨old, ⟨pool.backend.nextBlock, i, max size 1,
      fresh.copy old.contents (min old.size size)⟩, fresh, hbefore, ?_, rfl⟩
    have hfilled := Backend.block?_modifyContents (pool.backend.serve i size fresh).1
      pool.backend.nextBlock (fun fresh => fresh.copy old.contents (min old.size size))
      (.block pool.backend.nextBlock 0)
    rw [hbackend.block?_serve, if_pos rfl, Option.map_some, if_pos rfl] at hfilled
    rw [DomainAllocator.block?_free, if_neg hne]
    exact hfilled

/-- What a block held can be read from the new place. -/
theorem Housed.read_of_move_block (h : l.Housed) (hg : g ∈ l.grants) (hplace : g.place? = none)
    (hmove : l.allocator.Move state g.pointer size a' q) (hq : q ≠ .null) :
    a'.read q (min g.size size) = l.allocator.read g.pointer (min g.size size) := by
  obtain ⟨old, new, fresh, hold, hnew, hcontents⟩ := h.exists_block_of_move hplace hmove hq
  have hsize : old.size = max g.size 1 := by
    have hsize := h.size?_eq g hg hplace
    rw [Backend.size?, hold] at hsize
    exact Option.some.inj hsize
  have hle : min g.size size ≤ min old.size size := by omega
  rw [DomainAllocator.read_of_block? hnew, DomainAllocator.read_of_block? hold, hcontents]
  exact Contents.read_copy _ _ hle

/-! ## What a move does -/

/-- What a request is answered with was not held before. -/
theorem WellFormed.pointer_ne_of_outcome (h : l.WellFormed)
    (houtcome : l.allocator.Outcome state size a' q) (hq : q ≠ .null) (hg : g ∈ l.grants) :
    g.pointer ≠ q := by
  have hnodup := (h.given houtcome).pointers_nodup
  rw [Ledger.given, if_neg (by simpa [Pointer.isNull] using hq)] at hnodup
  exact (nodup_pointers_concat.1 hnodup).1 g hg

/-- The new place of what is moved is another one. -/
theorem WellFormed.pointer_ne_of_move (h : l.WellFormed)
    (hmove : l.allocator.Move state g.pointer size a' q) (hq : q ≠ .null) (hg : g ∈ l.grants) :
    g.pointer ≠ q := by
  cases hmove with
  | failed _ => exact absurd rfl hq
  | claim _ houtcome _ => exact h.pointer_ne_of_outcome houtcome hq hg
  | block _ hk _ hi => exact h.pointer_ne_of_outcome (.served hk hi) hq hg

/-- What is held after a move is what was held apart from the old place, and the new one. -/
theorem mem_grants_moved {h : Grant} (hq : q ≠ .null) :
    h ∈ (l.moved (a', q) state p size).grants ↔
      h ∈ l.grants ∧ h.pointer ≠ p ∨ h = ⟨q, state, size⟩ := by
  have hnull : ¬ q.isNull = true := by simpa [Pointer.isNull] using hq
  unfold moved given withdrawn
  rw [if_neg hnull, if_neg hnull]
  simp only [List.mem_append, List.mem_filter, bne_iff_ne, List.mem_singleton]

/-- Something that was held has been moved to a new place. -/
structure MovedTo (l : Ledger slots) (g g' : Grant) (l' : Ledger slots) : Prop where
  /-- The new place starts with what the old one held, as far as both reach. -/
  read_eq : l'.allocator.read g'.pointer (min g.size g'.size) =
    l.allocator.read g.pointer (min g.size g'.size)
  /-- The new place is live, with room for what was asked for. -/
  isLive : l'.IsLive g'
  /-- Nothing is held at the old place any more. -/
  pointer_ne : ∀ h ∈ l'.grants, h.pointer ≠ g.pointer
  /-- No block is live there. -/
  block?_eq_none : l'.allocator.backend.block? g.pointer = none
  /-- A claim that was there is not counted any more: as many are counted as are held. -/
  liveClaims_eq : l'.allocator.bootstrap.liveClaims = l'.heldClaims.length
  /-- What else was live is live, and nothing else is. -/
  isLive_iff : ∀ h, h ≠ g' → h.pointer ≠ g.pointer → (l'.IsLive h ↔ l.IsLive h)
  /-- All other blocks have the owners, the sizes and the bytes that they had. -/
  block?_eq : ∀ p, p ≠ g.pointer → p ≠ g'.pointer →
    l'.allocator.backend.block? p = l.allocator.backend.block? p
  /-- All other claims hold the bytes that they held. -/
  contents_eq : ∀ c ∈ l.heldClaims, .buffer c.start ≠ g.pointer → ∀ i, c.Covers i →
    l'.allocator.bootstrap.contents i = l.allocator.bootstrap.contents i

end Ledger

/-- Whatever was done before with an allocator and its buffer, when something that is held is given
a new place, its contents have been moved there and nothing else was touched. -/
theorem movedTo_of_resize (events : List BufferEvent) (hrun : Ledger.empty.runBuffer events = some l)
    (hg : g ∈ l.grants) (hanswer : l.allocator.resize state g.pointer size = (a', q))
    (hq : q ≠ .null) :
    l.MovedTo g ⟨q, state, size⟩ (l.step (.resize state g.pointer size)) := by
  have hl : l.Housed := Ledger.housed_of_runBuffer hrun
  have hmove : l.allocator.Move state g.pointer size a' q := by
    have hmove := l.allocator.move_resize state (hl.pointer_ne_null hg) size
    rwa [hanswer] at hmove
  have hstep : l.step (.resize state g.pointer size) =
      l.moved (a', q) state g.pointer size := by rw [Ledger.step, hanswer]
  rw [hstep]
  have hl' : (l.moved (a', q) state g.pointer size).Housed := hl.moved hg hmove
  refine ⟨?_, hl'.isLive_iff.2 ((Ledger.mem_grants_moved hq).2 (Or.inr rfl)), ?_, ?_,
    hl'.layout.liveClaims_eq, ?_, ?_, ?_⟩
  · cases hplace : g.place? with
    | some start => exact hl.read_of_resize_claim hg hplace hanswer hq
    | none => exact hl.read_of_move_block hg hplace hmove hq
  · intro h hh
    rcases (Ledger.mem_grants_moved hq).1 hh with ⟨-, hne⟩ | rfl
    · exact hne
    · exact (hl.pointer_ne_of_move hmove hq hg).symm
  · exact Ledger.block?_eq_none_of_move hmove hq
  · intro h hnew hne
    rw [hl'.isLive_iff, hl.isLive_iff, Ledger.mem_grants_moved hq]
    simp only [hnew, hne, ne_eq, not_false_eq_true, and_true, or_false]
  · exact fun p hp hp' => hl.block?_of_move hmove hq hp hp'
  · exact fun c hc hne i hi => hl.contents_of_move hg hmove hq hc hne hi

/-- A claim that is filled, and a claim and a block beside it. -/
def relocating : List BufferEvent :=
  [.use (.allocate ⟨5, 0⟩ 3),
    .use (.store (.block 0 0) 0 [7, 8, 9]),
    .use .beginInitialization,
    .use (.allocate ⟨5, 0⟩ 16),
    .fill (.buffer 0) 0 [1, 2, 3, 4],
    .use (.allocate ⟨5, 0⟩ 5),
    .use (.store (.buffer 16) 0 [6, 6])]

/-- The claim is moved to one that begins before what is copied ends, and the others stay. -/
theorem movedTo_relocating : ∃ (l : Ledger 3) (a' : DomainAllocator 3),
    Ledger.empty.runBuffer relocating = some l ∧
      (⟨.buffer 0, ⟨5, 0⟩, 16⟩ : Grant) ∈ l.grants ∧
      l.allocator.resize ⟨5, 0⟩ (.buffer 0) 40 = (a', .buffer 32) ∧
      l.MovedTo ⟨.buffer 0, ⟨5, 0⟩, 16⟩ ⟨.buffer 32, ⟨5, 0⟩, 40⟩
        (l.step (.resize ⟨5, 0⟩ (.buffer 0) 40)) ∧
      a'.read (.buffer 32) 4 = [1, 2, 3, 4] ∧ a'.read (.buffer 16) 2 = [6, 6] ∧
      a'.read (.block 0 0) 3 = [7, 8, 9] := by
  refine ⟨_, _, rfl, by decide, rfl, ?_, by decide, by decide, by decide⟩
  exact movedTo_of_resize (g := ⟨.buffer 0, ⟨5, 0⟩, 16⟩) relocating rfl (by decide) rfl (by decide)

end HeapDomains
