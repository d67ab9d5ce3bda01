import HeapDomains.Proofs.Allocator.Pool
import Mathlib.Logic.Function.Basic

/-!
# Blocks at addresses

A backend numbers its blocks, but whoever uses it knows them by their addresses, and these come from
the system allocator. A `MappedBackend` is a backend with the addresses of its blocks. All that is
assumed of the system allocator is that it gives no address at which a block is live
(`MappedBackend.permits`): it may give the address of a block that was freed again, it may have no
memory at any time, and its memory may hold anything. An address that is freed or moved may be any
number, so also that of a block that was freed, or of none.

An address stands for the live block that lies there (`MappedBackend.pointer`), and no two live
blocks share one (`InOrder`). So the contracts of a backend carry over to addresses. To move a block
is to serve another one and to free the first (`move`), where a heap gains one and a heap loses one,
be they the same or not. `AccountsForBlocks` puts together what holds after every run.
-/

namespace HeapDomains

/-- A backend and the addresses of its blocks. -/
structure MappedBackend where
  /-- The backend. -/
  backend : Backend
  /-- The addresses of the blocks that were served, by the numbers of the blocks. -/
  address : Nat → Nat

/-- What can be done with a backend, and what can happen to it. A request comes with the address
that the system allocator has for it, which is null when there is no memory. -/
inductive BackendEvent where
  /-- A heap is asked for. -/
  | createHeap
  /-- A heap is asked for a block. -/
  | alloc (heap : HeapHandle) (size address : Nat)
  /-- A heap is asked for a block of zeros. -/
  | allocZeroed (heap : HeapHandle) (count size address : Nat)
  /-- The block at an address is to be moved to a heap. -/
  | resize (heap : HeapHandle) (from' size address : Nat)
  /-- The block at an address is given back. -/
  | free (address : Nat)
  /-- A heap serves nothing more, or serves again. -/
  | exhaust (heap : HeapHandle) (on : Bool)
  /-- The backend makes no more heaps, or makes them again. -/
  | refuseHeaps (on : Bool)
  /-- The system allocator has other memory from now on, or none for some sizes. -/
  | supply (memory : Nat → Option Contents)

namespace MappedBackend

variable {m m' : MappedBackend} {b : Backend} {block old : Block} {k : HeapHandle}
  {e : BackendEvent} {c : Contents} {a p i size : Nat}

/-- A backend without heaps. -/
def empty : MappedBackend := ⟨Backend.empty, fun _ => 0⟩

/-- The live block at an address. -/
def block? (m : MappedBackend) (a : Nat) : Option Block :=
  m.backend.blocks.find? fun block => m.address block.id == a

/-- What an address stands for: nothing when it is null, else the start of the live block there. -/
def pointer (m : MappedBackend) (a : Nat) : Pointer :=
  if a = 0 then .null
  else
    match m.block? a with
    | some block => .block block.id 0
    | none => .foreign

/-- The heap that owns the live block at an address. -/
def owner? (m : MappedBackend) (a : Nat) : Option HeapHandle := m.backend.owner? (m.pointer a)

/-- What a request comes to: a block that is served lies at the address that the system allocator
has, and there is none when that is null. -/
def answered (m : MappedBackend) (answer : Backend × Pointer) (a : Nat) : MappedBackend × Nat :=
  if a = 0 then (m, 0)
  else if answer.2.isNull then ({ m with backend := answer.1 }, 0)
  else (⟨answer.1, Function.update m.address m.backend.nextBlock a⟩, a)

/-- Asks a heap for a block. -/
def alloc (m : MappedBackend) (k : HeapHandle) (size a : Nat) : MappedBackend × Nat :=
  m.answered (m.backend.alloc k size) a

/-- Asks a heap for a block of zeros for a number of items. -/
def allocZeroed (m : MappedBackend) (k : HeapHandle) (count size a : Nat) : MappedBackend × Nat :=
  m.answered (m.backend.allocZeroed k count size) a

/-- Moves the block at an address into a new one of a heap. -/
def resize (m : MappedBackend) (k : HeapHandle) (p size a : Nat) : MappedBackend × Nat :=
  m.answered (m.backend.resize k (m.pointer p) size) a

/-- Frees the block at an address; nothing happens when there is none. -/
def free (m : MappedBackend) (p : Nat) : MappedBackend :=
  { m with backend := m.backend.free (m.pointer p) }

/-- The backend after an event. -/
def step (m : MappedBackend) : BackendEvent → MappedBackend
  | .createHeap => { m with backend := m.backend.createHeap.1 }
  | .alloc k size a => (m.alloc k size a).1
  | .allocZeroed k count size a => (m.allocZeroed k count size a).1
  | .resize k p size a => (m.resize k p size a).1
  | .free p => m.free p
  | .exhaust k on => { m with backend := m.backend.setExhausted k on }
  | .refuseHeaps on => { m with backend := m.backend.setRefusing on }
  | .supply memory => { m with backend := m.backend.setMemory memory }

/-- Whether the system allocator gives no address at which a block is live. -/
def permits (m : MappedBackend) : BackendEvent → Bool
  | .alloc _ _ a | .allocZeroed _ _ _ a | .resize _ _ _ a => (m.block? a).isNone
  | _ => true

/-- The backend after some events, if the system allocator never gives the address of a live
block. -/
def run (m : MappedBackend) : List BackendEvent → Option MappedBackend
  | [] => some m
  | e :: events => if m.permits e then (m.step e).run events else none

/-- The backend with a block that a heap serves, which holds something, at an address. -/
def serve (m : MappedBackend) (i size : Nat) (c : Contents) (a : Nat) : MappedBackend :=
  ⟨(m.backend.serve i size c).1, Function.update m.address m.backend.nextBlock a⟩

/-- The backend with the contents of a block changed. -/
def fill (m : MappedBackend) (id : Nat) (f : Contents → Contents) : MappedBackend :=
  { m with backend := m.backend.modifyContents id f }

/-- Every live block lies at an address of its own. -/
structure InOrder (m : MappedBackend) : Prop where
  /-- The backend accounts for its blocks. -/
  backend : m.backend.WellFormed
  /-- No two live blocks lie at the same address. -/
  address_nodup : ((m.backend.blocks.map Block.id).map m.address).Nodup
  /-- No live block lies at null. -/
  address_ne_zero : ∀ id ∈ m.backend.blocks.map Block.id, m.address id ≠ 0

/-- A block that is served lies at the address that was given for it. -/
theorem address_serve_nextBlock : (m.serve i size c a).address m.backend.nextBlock = a :=
  Function.update_self ..

/-! ## What lies at an address -/

/-- A live block lies at no address at which none is live. -/
theorem ne_of_block? (hold : m.block? p = some old) (ha : m.block? a = none) : p ≠ a := by
  rintro rfl
  rw [ha] at hold
  cases hold

namespace InOrder

/-- What is found at an address is the live block that lies there. -/
theorem block?_eq_some_iff (h : m.InOrder) :
    m.block? a = some block ↔ block ∈ m.backend.blocks ∧ m.address block.id = a := by
  have hnodup := h.address_nodup
  rw [List.map_map] at hnodup
  exact find?_eq_some_iff_of_nodup hnodup

/-- Nothing lies at null. -/
theorem block?_zero (h : m.InOrder) : m.block? 0 = none := by
  cases hblock : m.block? 0 with
  | none => rfl
  | some block =>
    obtain ⟨hmem, hzero⟩ := h.block?_eq_some_iff.1 hblock
    exact absurd hzero (h.address_ne_zero _ (List.mem_map_of_mem hmem))

/-- The backend finds at a pointer what lies at the address. -/
theorem block?_pointer (h : m.InOrder) (a : Nat) : m.backend.block? (m.pointer a) = m.block? a := by
  unfold pointer
  split
  · next hzero =>
    rw [hzero, h.block?_zero]
    rfl
  · cases hblock : m.block? a with
    | none => rfl
    | some block =>
      have hmem := (h.block?_eq_some_iff.1 hblock).1
      exact (find?_eq_some_iff_of_nodup h.backend.ids_nodup).2 ⟨hmem, rfl⟩

/-- The owner of what lies at an address is that of the block. -/
theorem owner?_eq (h : m.InOrder) (a : Nat) :
    m.owner? a = (m.block? a).map fun block => .ofIndex block.heap := by
  rw [owner?, Backend.owner?, h.block?_pointer]

/-- The owner of an address is the heap of the live block that lies there. -/
theorem owner?_eq_some_iff (h : m.InOrder) : m.owner? a = some k ↔
    ∃ block ∈ m.backend.blocks, m.address block.id = a ∧ k = .ofIndex block.heap := by
  rw [h.owner?_eq, Option.map_eq_some_iff]
  simp only [h.block?_eq_some_iff, and_assoc, eq_comm (a := k)]

/-- Without an owner nothing lies at an address. -/
theorem owner?_eq_none_iff (h : m.InOrder) : m.owner? a = none ↔ m.block? a = none := by
  rw [h.owner?_eq, Option.map_eq_none_iff]

/-- What has an owner is a live block of that heap. -/
theorem exists_block_of_owner? (h : m.InOrder) (ha : m.owner? a = some (.ofIndex i)) :
    ∃ block, m.block? a = some block ∧ block.heap = i := by
  rw [h.owner?_eq, Option.map_eq_some_iff] at ha
  obtain ⟨block, hblock, hheap⟩ := ha
  exact ⟨block, hblock, HeapHandle.ofIndex_injective hheap⟩

/-- A heap owns as many addresses as live blocks. -/
theorem encard_owner? (h : m.InOrder) (i : Nat) :
    {a | m.owner? a = some (.ofIndex i)}.encard = m.backend.ownedBlocks i := by
  have hnodup : ((m.backend.blocks.filter (·.heap == i)).map fun block => m.address block.id).Nodup := by
    have hall := h.address_nodup
    rw [List.map_map] at hall
    exact hall.sublist (List.filter_sublist.map _)
  have hset : {a | m.owner? a = some (.ofIndex i)} =
      {a | a ∈ (m.backend.blocks.filter (·.heap == i)).map fun block => m.address block.id} := by
    refine Set.ext fun a => ?_
    change m.owner? a = some (.ofIndex i) ↔ a ∈ List.map _ _
    rw [h.owner?_eq_some_iff, List.mem_map]
    simp only [List.mem_filter, beq_iff_eq, HeapHandle.ofIndex_injective.eq_iff]
    constructor
    · rintro ⟨block, hmem, haddress, hheap⟩
      exact ⟨block, ⟨hmem, hheap.symm⟩, haddress⟩
    · rintro ⟨block, ⟨hmem, hheap⟩, haddress⟩
      exact ⟨block, hmem, haddress, hheap.symm⟩
  rw [hset, encard_setOf_mem hnodup, List.length_map, Backend.ownedBlocks,
    List.countP_eq_length_filter]

/-! ## What is served, filled and freed -/

/-- The address of a block that was live before stays when another one is served. -/
theorem address_serve (h : m.InOrder) (hblock : block ∈ m.backend.blocks) :
    (m.serve i size c a).address block.id = m.address block.id :=
  Function.update_of_ne (h.backend.id_lt block hblock).ne ..

/-- A block that is served is found at its address, and all others as before. -/
theorem block?_serve (h : m.InOrder) (ha : m.block? a = none) (i size : Nat) (c : Contents)
    (q : Nat) :
    (m.serve i size c a).block? q =
      if q = a then some ⟨m.backend.nextBlock, i, max size 1, c⟩ else m.block? q := by
  let lies : Block → Bool := fun block => (m.serve i size c a).address block.id == q
  have hbefore : m.backend.blocks.find? lies = m.block? q :=
    List.find?_congr fun block hblock => congrArg (· == q) (h.address_serve hblock)
  have hlast : [⟨m.backend.nextBlock, i, max size 1, c⟩].find? lies =
      if q = a then some ⟨m.backend.nextBlock, i, max size 1, c⟩ else none := by
    rw [List.find?_singleton]
    simp only [lies, address_serve_nextBlock, beq_iff_eq, eq_comm (a := a)]
  have hfind : (m.serve i size c a).block? q = (m.backend.blocks.find? lies).or
      ([⟨m.backend.nextBlock, i, max size 1, c⟩].find? lies) := List.find?_append
  rw [hfind, hbefore, hlast]
  split
  · next hq => rw [hq, ha, Option.none_or]
  · rw [Option.or_none]

/-- A block that is served at an address where no block is live keeps addresses apart. -/
theorem serve (h : m.InOrder) (hi : i < m.backend.heaps.length) (hnull : a ≠ 0)
    (ha : m.block? a = none) (size : Nat) (c : Contents) : (m.serve i size c a).InOrder := by
  have hids : (m.serve i size c a).backend.blocks.map Block.id =
      m.backend.blocks.map Block.id ++ [m.backend.nextBlock] := List.map_append
  have hbefore : ∀ id ∈ m.backend.blocks.map Block.id,
      (m.serve i size c a).address id = m.address id := by
    intro id hid
    obtain ⟨block, hblock, rfl⟩ := List.mem_map.1 hid
    exact h.address_serve hblock
  -- No live block lies at the address, for it would be found there.
  have hfresh : a ∉ (m.backend.blocks.map Block.id).map m.address := by
    intro hmem
    obtain ⟨id, hid, haddress⟩ := List.mem_map.1 hmem
    obtain ⟨block, hblock, rfl⟩ := List.mem_map.1 hid
    have hfound := h.block?_eq_some_iff.2 ⟨hblock, haddress⟩
    rw [ha] at hfound
    cases hfound
  refine ⟨h.backend.serve hi size c, ?_, ?_⟩
  · rw [hids, List.map_append, List.map_congr_left hbefore, List.map_singleton,
      address_serve_nextBlock, ← List.concat_eq_append]
    exact h.address_nodup.concat hfresh
  · intro id hid
    rw [hids, List.mem_append, List.mem_singleton] at hid
    rcases hid with hid | rfl
    · rw [hbefore id hid]
      exact h.address_ne_zero id hid
    · rw [address_serve_nextBlock]
      exact hnull

/-- A block that is served is owned by the heap that serves it, and all others as before. -/
theorem owner?_serve (h : m.InOrder) (hi : i < m.backend.heaps.length) (hnull : a ≠ 0)
    (ha : m.block? a = none) (size : Nat) (c : Contents) (q : Nat) :
    (m.serve i size c a).owner? q = if q = a then some (.ofIndex i) else m.owner? q := by
  rw [(h.serve hi hnull ha size c).owner?_eq, h.owner?_eq, h.block?_serve ha]
  split
  · rfl
  · rfl

/-- Addresses stay apart when the backend serves no block. -/
theorem setBackend (h : m.InOrder) (hb : b.WellFormed)
    (hids : (b.blocks.map Block.id).Sublist (m.backend.blocks.map Block.id)) :
    InOrder { m with backend := b } :=
  ⟨hb, h.address_nodup.sublist (hids.map _), fun id hid => h.address_ne_zero id (hids.subset hid)⟩

/-- Addresses stay apart when contents change. -/
theorem fill (h : m.InOrder) (id : Nat) (f : Contents → Contents) : (m.fill id f).InOrder := by
  refine h.setBackend (h.backend.modifyContents id f) ?_
  rw [Backend.map_modifyContents Block.id (fun _ _ => rfl)]

/-- Addresses stay apart when a block is freed. -/
theorem free (h : m.InOrder) (p : Nat) : (m.free p).InOrder := by
  refine h.setBackend (h.backend.free _) (List.Sublist.map _ ?_)
  cases hp : m.backend.block? (m.pointer p) with
  | none => rw [Backend.free_of_block?_eq_none hp]
  | some block =>
    rw [Backend.blocks_free hp]
    exact List.filter_sublist

/-- Where no block is live, nothing is freed. -/
theorem free_of_block?_eq_none (h : m.InOrder) (hp : m.block? p = none) : m.free p = m := by
  rw [MappedBackend.free, Backend.free_of_block?_eq_none (by rw [h.block?_pointer, hp])]

/-- What is freed is found no more, and all else as before. -/
theorem block?_free (h : m.InOrder) (p q : Nat) :
    (m.free p).block? q = if q = p then none else m.block? q := by
  cases hp : m.block? p with
  | none =>
    rw [h.free_of_block?_eq_none hp]
    split
    · next hq => rw [hq, hp]
    · rfl
  | some block =>
    obtain ⟨hblock, haddress⟩ := h.block?_eq_some_iff.1 hp
    have hblocks : (m.free p).backend.blocks =
        m.backend.blocks.filter fun other => other.id != block.id :=
      Backend.blocks_free (by rw [h.block?_pointer, hp])
    refine Option.ext fun other => ?_
    rw [(h.free p).block?_eq_some_iff, hblocks, List.mem_filter, bne_iff_ne]
    change (_ ∧ _) ∧ m.address other.id = q ↔ _
    split
    · next hq =>
      -- The block at that address is the one that is taken out.
      refine iff_of_false ?_ (by simp)
      rintro ⟨⟨hother, hne⟩, hsame⟩
      have hfound := h.block?_eq_some_iff.2 ⟨hother, hsame.trans hq⟩
      rw [hp] at hfound
      exact hne (congrArg Block.id (Option.some.inj hfound)).symm
    · next hq =>
      rw [h.block?_eq_some_iff]
      constructor
      · rintro ⟨⟨hother, -⟩, hsame⟩
        exact ⟨hother, hsame⟩
      · rintro ⟨hother, hsame⟩
        refine ⟨⟨hother, fun hid => hq ?_⟩, hsame⟩
        rw [← hsame, hid, haddress]

/-- What is freed has no owner, and all else the one it had. -/
theorem owner?_free (h : m.InOrder) (p q : Nat) :
    (m.free p).owner? q = if q = p then none else m.owner? q := by
  rw [(h.free p).owner?_eq, h.owner?_eq, h.block?_free]
  split
  · rfl
  · rfl

end InOrder

/-- A block whose contents are changed is found with the new ones. -/
theorem block?_fill (m : MappedBackend) (id : Nat) (f : Contents → Contents) (q : Nat) :
    (m.fill id f).block? q = (m.block? q).map fun block =>
      if block.id = id then { block with contents := f block.contents } else block := by
  change (List.map _ m.backend.blocks).find? _ = _
  rw [List.find?_map]
  congr 1
  refine List.find?_congr fun block _ => ?_
  by_cases hid : block.id = id
  · simp [hid, fill]
  · simp [hid, fill]

/-- Addresses stand for the same blocks when contents change. -/
theorem pointer_fill (m : MappedBackend) (id : Nat) (f : Contents → Contents) (q : Nat) :
    (m.fill id f).pointer q = m.pointer q := by
  unfold pointer
  rw [block?_fill]
  cases m.block? q with
  | none => rfl
  | some block =>
    rw [Option.map_some]
    split
    · rfl
    · dsimp only
      split
      · rfl
      · rfl

/-- Changes of contents leave the owners. -/
theorem owner?_fill (m : MappedBackend) (id : Nat) (f : Contents → Contents) (q : Nat) :
    (m.fill id f).owner? q = m.owner? q := by
  rw [owner?, pointer_fill]
  exact Backend.owner?_modifyContents ..

/-! ## Requests -/

/-- What comes of a request for which the system allocator has some address: it fails and changes
nothing, or it is met there. -/
inductive Outcome (m : MappedBackend) (a : Nat) (Met : MappedBackend → Prop) :
    MappedBackend × Nat → Prop where
  | failed : Outcome m a Met (m, 0)
  | met {m' : MappedBackend} (hnull : a ≠ 0) (hmet : Met m') : Outcome m a Met (m', a)

namespace Outcome

variable {P Q : MappedBackend → Prop} {answer : MappedBackend × Nat}

/-- A request that is answered with null has changed nothing. -/
theorem eq_of_null (h : Outcome m a P answer) (hanswer : answer = (m', 0)) : m' = m := by
  cases h with
  | failed => exact (congrArg Prod.fst hanswer).symm
  | met hnull => exact absurd (congrArg Prod.snd hanswer) hnull

/-- A request that is answered with an address has been met. -/
theorem of_ne_zero (h : Outcome m a P answer) (hanswer : answer = (m', a)) (ha : a ≠ 0) : P m' := by
  cases h with
  | failed => exact absurd (congrArg Prod.snd hanswer).symm ha
  | met hnull hmet =>
    obtain rfl := congrArg Prod.fst hanswer
    exact hmet

/-- What holds before a request, and also when it is met, holds after it. -/
theorem keeps (h : Outcome m a P answer) (hm : Q m) (hmet : ∀ m', a ≠ 0 → P m' → Q m') :
    Q answer.1 := by
  cases h with
  | failed => exact hm
  | met hnull hP => exact hmet _ hnull hP

end Outcome

/-- A request that the backend answers with null fails. -/
theorem answered_null : m.answered (m.backend, .null) a = (m, 0) := by
  unfold answered
  split
  · rfl
  · rfl

/-- A request is met by a heap that can serve the block, or nothing happens. -/
theorem answered_outcome {answer : Backend × Pointer}
    (h : answer = (m.backend, .null) ∨
      ∃ i c, m.backend.CanServe k size i c ∧ answer = m.backend.serve i size c) :
    m.Outcome a (fun m' => ∃ i c, m.backend.CanServe k size i c ∧ m' = m.serve i size c a)
      (m.answered answer a) := by
  rcases h with rfl | ⟨i, c, hi, rfl⟩
  · rw [answered_null]
    exact .failed
  · by_cases hnull : a = 0
    · rw [answered, if_pos hnull]
      exact .failed
    · have hserved : m.answered (m.backend.serve i size c) a = (m.serve i size c a, a) :=
        if_neg hnull
      rw [hserved]
      exact .met hnull ⟨i, c, hi, rfl⟩

/-- A request for a block is met by the heap that is asked, or nothing happens. -/
theorem alloc_outcome (m : MappedBackend) (k : HeapHandle) (size a : Nat) :
    m.Outcome a (fun m' => ∃ i c, m.backend.CanServe k size i c ∧ m' = m.serve i size c a)
      (m.alloc k size a) :=
  answered_outcome (Backend.alloc_cases ..)

/-- A request for zeros is one for their number of bytes. -/
theorem allocZeroed_outcome (m : MappedBackend) (k : HeapHandle) (count size a : Nat) :
    m.Outcome a
      (fun m' => ∃ i c, m.backend.CanServe k (count * size) i c ∧ m' = m.serve i (count * size) c a)
      (m.allocZeroed k count size a) :=
  answered_outcome (Backend.allocZeroed_cases ..)

/-- To move what lies at null is to ask for a block. -/
theorem resize_zero (m : MappedBackend) (k : HeapHandle) (size a : Nat) :
    m.resize k 0 size a = m.alloc k size a := rfl

/-- The backend after a live block was moved to one that is served at an address: the new one is
filled with what fits, and the old one is freed. -/
def move (m : MappedBackend) (old : Block) (p i size : Nat) (c : Contents) (a : Nat) :
    MappedBackend :=
  ((m.serve i size c a).fill m.backend.nextBlock fun fresh =>
    fresh.copy old.contents (min old.size size)).free p

/-- A live block is moved to one that the heap that is asked serves, or nothing happens. -/
theorem InOrder.resize_outcome (h : m.InOrder) (k : HeapHandle) (hp : p ≠ 0) (size : Nat)
    (ha : m.block? a = none) :
    m.Outcome a
      (fun m' => ∃ old i c, m.block? p = some old ∧ m.backend.CanServe k size i c ∧
        m' = m.move old p i size c a)
      (m.resize k p size a) := by
  have hpointer : m.pointer p ≠ .null := by
    unfold pointer
    rw [if_neg hp]
    split
    · simp
    · simp
  unfold resize
  rcases m.backend.resize_cases k hpointer size with hnull | ⟨old, i, c, hold, hi, hmoved⟩
  · rw [hnull, answered_null]
    exact .failed
  · rw [h.block?_pointer] at hold
    rw [hmoved]
    by_cases hnull : a = 0
    · rw [answered, if_pos hnull]
      exact .failed
    · -- The address of the old block stands for it still, as the new one lies elsewhere.
      have hne : p ≠ a := ne_of_block? hold ha
      have hkept : (m.serve i size c a).pointer p = m.pointer p := by
        unfold pointer
        rw [h.block?_serve ha, if_neg hne]
      rw [answered, if_neg hnull]
      refine .met hnull ⟨old, i, c, hold, hi, ?_⟩
      rw [move, MappedBackend.free, pointer_fill, hkept]
      rfl

/-- A heap has come to own a block at an address. -/
structure Gains (m m' : MappedBackend) (a i : Nat) : Prop where
  /-- The heap was made. -/
  lt : i < m.backend.heapsCreated
  /-- The heap owns the address, and all others have the owners that they had. -/
  owner?_eq : ∀ q, m'.owner? q = if q = a then some (.ofIndex i) else m.owner? q
  /-- The heap counts one more live block, and all others as many. -/
  liveBlocks_eq : ∀ n, m'.backend.liveBlocks (.ofIndex n) =
    m.backend.liveBlocks (.ofIndex n) + if i = n then 1 else 0

/-- A heap has come to own no block at an address any more. -/
structure Loses (m m' : MappedBackend) (p i : Nat) : Prop where
  /-- The heap owned the address. -/
  owner?_eq_some : m.owner? p = some (.ofIndex i)
  /-- The address has no owner, and all others have the owners that they had. -/
  owner?_eq : ∀ q, m'.owner? q = if q = p then none else m.owner? q
  /-- The heap counted one more live block, and all others as many. -/
  liveBlocks_eq : ∀ n, m.backend.liveBlocks (.ofIndex n) =
    m'.backend.liveBlocks (.ofIndex n) + if i = n then 1 else 0

/-- A block has been moved from an address and its heap to another address and a heap. -/
structure Moves (m m' : MappedBackend) (p i a j : Nat) : Prop where
  /-- The old heap owned the old address. -/
  owner?_eq_some : m.owner? p = some (.ofIndex i)
  /-- The new heap was made. -/
  lt : j < m.backend.heapsCreated
  /-- The new heap owns the new address, no heap the old one, and all others have the owners that
  they had. -/
  owner?_eq : ∀ q, m'.owner? q =
    if q = p then none else if q = a then some (.ofIndex j) else m.owner? q
  /-- One live block has gone from the count of the old heap to that of the new one, which may be
  the same. -/
  liveBlocks_eq : ∀ n, m'.backend.liveBlocks (.ofIndex n) + (if i = n then 1 else 0) =
    m.backend.liveBlocks (.ofIndex n) + if j = n then 1 else 0

namespace InOrder

/-- A heap that serves a block gains it. -/
theorem gains (h : m.InOrder) (hi : m.backend.CanServe k size i c) (hnull : a ≠ 0)
    (ha : m.block? a = none) : m.Gains (m.serve i size c a) a i where
  lt := hi.lt
  owner?_eq := h.owner?_serve hi.lt hnull ha size c
  liveBlocks_eq n := by
    rw [(h.serve hi.lt hnull ha size c).backend.liveBlocks_ofIndex, h.backend.liveBlocks_ofIndex]
    exact Backend.ownedBlocks_serve ..

/-- The heap of a block that is freed loses it. -/
theorem loses (h : m.InOrder) (hp : m.block? p = some block) :
    m.Loses (m.free p) p block.heap where
  owner?_eq_some := by
    rw [h.owner?_eq, hp]
    rfl
  owner?_eq := h.owner?_free p
  liveBlocks_eq n := by
    rw [(h.free p).backend.liveBlocks_ofIndex, h.backend.liveBlocks_ofIndex]
    exact h.backend.ownedBlocks_free (by rw [h.block?_pointer, hp]) n

/-- A block that is moved goes from its heap to the one that serves the new block. -/
theorem moves (h : m.InOrder) (hold : m.block? p = some old) (hi : m.backend.CanServe k size i c)
    (hnull : a ≠ 0) (ha : m.block? a = none) :
    m.Moves (m.move old p i size c a) p old.heap a i := by
  have hgains : m.Gains (m.serve i size c a) a i := h.gains hi hnull ha
  let filled := (m.serve i size c a).fill m.backend.nextBlock fun fresh =>
    fresh.copy old.contents (min old.size size)
  have hfilled : filled.InOrder := (h.serve hi.lt hnull ha size c).fill ..
  have hlive : ∀ n, filled.backend.liveBlocks (.ofIndex n) =
      (m.serve i size c a).backend.liveBlocks (.ofIndex n) := fun _ => rfl
  have howner : ∀ q, filled.owner? q = if q = a then some (.ofIndex i) else m.owner? q := by
    intro q
    rw [owner?_fill, hgains.owner?_eq]
  -- The old block is live still when it is freed, and is of the same heap.
  have hne : p ≠ a := ne_of_block? hold ha
  have hbefore : m.owner? p = some (.ofIndex old.heap) := by
    rw [h.owner?_eq, hold]
    rfl
  have hstill : filled.owner? p = some (.ofIndex old.heap) := by
    rw [howner, if_neg hne, hbefore]
  obtain ⟨block, hblock, hheap⟩ := hfilled.exists_block_of_owner? hstill
  have hloses : filled.Loses (m.move old p i size c a) p old.heap := by
    have hfreed := hfilled.loses hblock
    rwa [hheap] at hfreed
  refine ⟨hbefore, hi.lt, fun q => ?_, fun n => ?_⟩
  · rw [hloses.owner?_eq, howner]
  · rw [← hloses.liveBlocks_eq, hlive, hgains.liveBlocks_eq]

/-! ## Steps and runs -/

/-- Addresses stay apart whatever happens, as long as the system allocator gives no address of a
live block. -/
theorem step (h : m.InOrder) (hpermits : m.permits e = true) : (m.step e).InOrder := by
  -- A block is served at an address where none is live, since the system allocator gives no other.
  have hserve : ∀ {k size a}, m.block? a = none → ∀ m', a ≠ 0 →
      (∃ i c, m.backend.CanServe k size i c ∧ m' = m.serve i size c a) → m'.InOrder := by
    rintro k size a ha m' hnull ⟨i, c, hi, rfl⟩
    exact h.serve hi.lt hnull ha size c
  cases e with
  | createHeap =>
    refine h.setBackend h.backend.createHeap ?_
    rw [Backend.blocks_createHeap]
  | alloc k size a =>
    have ha : m.block? a = none := Option.isNone_iff_eq_none.1 hpermits
    exact (m.alloc_outcome k size a).keeps h (hserve ha)
  | allocZeroed k count size a =>
    have ha : m.block? a = none := Option.isNone_iff_eq_none.1 hpermits
    exact (m.allocZeroed_outcome k count size a).keeps h (hserve ha)
  | resize k p size a =>
    have ha : m.block? a = none := Option.isNone_iff_eq_none.1 hpermits
    by_cases hp : p = 0
    · subst hp
      exact (m.alloc_outcome k size a).keeps h (hserve ha)
    · refine (h.resize_outcome k hp size ha).keeps h ?_
      rintro m' hnull ⟨old, i, c, -, hi, rfl⟩
      exact ((h.serve hi.lt hnull ha size c).fill ..).free p
  | free p => exact h.free p
  | exhaust k on =>
    refine h.setBackend (h.backend.setExhausted k on) ?_
    rw [Backend.blocks_setExhausted]
  | refuseHeaps on => exact h.setBackend (h.backend.setRefusing on) (List.Sublist.refl _)
  | supply memory => exact h.setBackend (h.backend.setMemory memory) (List.Sublist.refl _)

/-- Every run keeps addresses apart. -/
theorem run (h : m.InOrder) {events : List BackendEvent} (hrun : m.run events = some m') :
    m'.InOrder := by
  induction events generalizing m with
  | nil =>
    cases hrun
    exact h
  | cons e events ih =>
    rw [MappedBackend.run] at hrun
    split at hrun
    · next hpermits => exact ih (h.step hpermits) hrun
    · cases hrun

end InOrder

/-- Nothing lies at any address while there are no heaps. -/
theorem inOrder_empty : empty.InOrder where
  backend := Backend.wellFormed_empty
  address_nodup := List.nodup_nil
  address_ne_zero _ hid := absurd hid List.not_mem_nil

/-- A backend accounts for the blocks at the addresses that a system allocator has chosen. -/
structure AccountsForBlocks (m : MappedBackend) : Prop where
  /-- A heap counts the addresses that it owns. -/
  encard_owner? : ∀ i,
    {a | m.owner? a = some (.ofIndex i)}.encard = m.backend.liveBlocks (.ofIndex i)
  /-- These are as many as its live blocks. -/
  liveBlocks_eq : ∀ i, m.backend.liveBlocks (.ofIndex i) = m.backend.ownedBlocks i
  /-- No heap has more live blocks than it has served. -/
  liveBlocks_le : ∀ k, m.backend.liveBlocks k ≤ m.backend.totalAllocations k
  /-- The owner of an address is the heap of the live block that lies there. -/
  owner?_eq_some_iff : ∀ a k, m.owner? a = some k ↔
    ∃ block ∈ m.backend.blocks, m.address block.id = a ∧ k = .ofIndex block.heap
  /-- Nothing is owned at null. -/
  owner?_zero : m.owner? 0 = none
  /-- The heap that owns an address was made. -/
  exists_heap : ∀ a k, m.owner? a = some k → ∃ i < m.backend.heapsCreated, k = .ofIndex i
  /-- A block that is served is one more of the heap that is asked. -/
  alloc : ∀ k size a m', m.block? a = none → m.alloc k size a = (m', a) → a ≠ 0 →
    ∃ i, k.index? = some i ∧ m.Gains m' a i
  /-- So is a block of zeros. -/
  allocZeroed : ∀ k count size a m', m.block? a = none →
    m.allocZeroed k count size a = (m', a) → a ≠ 0 → ∃ i, k.index? = some i ∧ m.Gains m' a i
  /-- A block that is moved is one less of its heap and one more of the heap that is asked. -/
  resize : ∀ k p size a m', m.block? a = none → p ≠ 0 → m.resize k p size a = (m', a) → a ≠ 0 →
    ∃ i j, k.index? = some j ∧ m.Moves m' p i a j
  /-- To move what lies at null is to ask for a block. -/
  resize_zero : ∀ k size a, m.resize k 0 size a = m.alloc k size a
  /-- A request that fails changes nothing. -/
  eq_of_null : ∀ k p count size a m', m.block? a = none →
    m.alloc k size a = (m', 0) ∨ m.allocZeroed k count size a = (m', 0) ∨
      m.resize k p size a = (m', 0) → m' = m
  /-- A block that is freed is one less of its heap. -/
  free : ∀ p i, m.owner? p = some (.ofIndex i) → m.Loses (m.free p) p i
  /-- So no count is taken below zero, whatever is freed. -/
  not_underflows : ∀ p, ¬ m.backend.Underflows p
  /-- To free what has no owner changes nothing. -/
  free_of_owner?_eq_none : ∀ p, m.owner? p = none → m.free p = m
  /-- The handle of a heap stands for it, and is no larger than that of the last heap. -/
  index?_ofIndex : ∀ i < m.backend.heapsCreated, HeapHandle.index? (.ofIndex i) = some i ∧
    (HeapHandle.ofIndex i).raw ≤ m.backend.heapsCreated * HeapHandle.spacing
  /-- So no two heaps have the same handle. -/
  ofIndex_injOn : Set.InjOn HeapHandle.ofIndex (Set.Iio m.backend.heapsCreated)

/-- Whatever is done with a new backend and whatever fails, it accounts for its blocks, when the
system allocator gives no address of a live block. -/
theorem accountsForBlocks_of_run {events : List BackendEvent}
    (hrun : empty.run events = some m) : m.AccountsForBlocks := by
  have h : m.InOrder := inOrder_empty.run hrun
  constructor
  · intro i
    rw [h.encard_owner?, h.backend.liveBlocks_ofIndex]
  · exact h.backend.liveBlocks_ofIndex
  · exact h.backend.liveBlocks_le_totalAllocations
  · exact fun a k => h.owner?_eq_some_iff
  · exact h.owner?_eq_none_iff.2 h.block?_zero
  · intro a k hk
    obtain ⟨block, hblock, -, rfl⟩ := h.owner?_eq_some_iff.1 hk
    exact ⟨block.heap, h.backend.heap_lt block hblock, rfl⟩
  · intro k size a m' ha hanswer hnull
    obtain ⟨i, c, hi, rfl⟩ := (m.alloc_outcome k size a).of_ne_zero hanswer hnull
    exact ⟨i, hi.index?_eq, h.gains hi hnull ha⟩
  · intro k count size a m' ha hanswer hnull
    obtain ⟨i, c, hi, rfl⟩ := (m.allocZeroed_outcome k count size a).of_ne_zero hanswer hnull
    exact ⟨i, hi.index?_eq, h.gains hi hnull ha⟩
  · intro k p size a m' ha hp hanswer hnull
    obtain ⟨old, i, c, hold, hi, rfl⟩ := (h.resize_outcome k hp size ha).of_ne_zero hanswer hnull
    exact ⟨old.heap, i, hi.index?_eq, h.moves hold hi hnull ha⟩
  · exact m.resize_zero
  · rintro k p count size a m' ha (hanswer | hanswer | hanswer)
    · exact (m.alloc_outcome k size a).eq_of_null hanswer
    · exact (m.allocZeroed_outcome k count size a).eq_of_null hanswer
    · by_cases hp : p = 0
      · rw [hp, resize_zero] at hanswer
        exact (m.alloc_outcome k size a).eq_of_null hanswer
      · exact (h.resize_outcome k hp size ha).eq_of_null hanswer
  · intro p i hp
    obtain ⟨block, hblock, rfl⟩ := h.exists_block_of_owner? hp
    exact h.loses hblock
  · exact h.backend.not_underflows
  · exact fun p hp => h.free_of_block?_eq_none (h.owner?_eq_none_iff.1 hp)
  · intro i hi
    exact ⟨HeapHandle.index?_ofIndex i, Nat.mul_le_mul_right _ hi⟩
  · exact HeapHandle.ofIndex_injective.injOn

/-- A run with two heaps in which the address of a block that was freed is given again, a block is
moved from one heap to the other, and requests fail. -/
def reusing : List BackendEvent :=
  [.createHeap, .createHeap, .alloc (.ofIndex 0) 8 4096, .resize (.ofIndex 1) 4096 16 8192,
    .allocZeroed (.ofIndex 0) 2 8 4096, .free 100, .free 0, .exhaust (.ofIndex 1) true,
    .resize (.ofIndex 1) 4096 32 12288, .refuseHeaps true, .createHeap, .alloc (.ofIndex 0) 8 0,
    .resize (.ofIndex 0) 4096 32 12288, .free 4096]

/-- The run ends with one live block in each heap, and none where the moved ones were. -/
theorem accountsForBlocks_reusing : ∃ m, empty.run reusing = some m ∧ m.AccountsForBlocks ∧
    m.backend.liveBlocks (.ofIndex 0) = 1 ∧ m.backend.totalAllocations (.ofIndex 0) = 3 ∧
      m.owner? 8192 = some (.ofIndex 1) ∧ m.owner? 4096 = none :=
  have hrun : empty.run reusing = some _ := rfl
  ⟨_, hrun, accountsForBlocks_of_run hrun, by decide, by decide, by decide, by decide⟩

end MappedBackend

end HeapDomains
