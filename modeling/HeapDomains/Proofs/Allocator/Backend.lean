import HeapDomains.Allocator.Backend
import HeapDomains.Proofs.Keyed

/-!
# Backends account for their blocks

What each operation of a backend does to the block at a pointer (`block?_serve`, `block?_free`,
`block?_modifyContents`) and to the counters of the heaps. A backend is well formed when its blocks
have different numbers and every heap counts the live blocks that it owns; every operation keeps it
so (`WellFormed.serve`, `WellFormed.free`, and so on), and then no count is ever taken below zero
(`WellFormed.not_underflows`).

A block number stands for an address. What is used of the system allocator is that it gives no
address inside a live block or the bootstrap buffer: here every block has a number of its own. It
may answer anything else at any time, so any request may fail for lack of memory, and what a block
holds at first is not known (`CanServe`, `alloc_cases`). `MappedBackend` is a backend whose
addresses are chosen by the system allocator.
-/

namespace HeapDomains

namespace Backend

variable {b b' : Backend} {p q : Pointer} {block : Block} {heap : Heap} {k : HeapHandle}
  {i j id size : Nat} {c : Contents} {f : Contents → Contents}

/-- How many live blocks a heap owns. -/
def ownedBlocks (b : Backend) (i : Nat) : Nat := b.blocks.countP (·.heap == i)

/-- The ownership table and the counters of a backend agree. -/
structure WellFormed (b : Backend) : Prop where
  /-- Blocks are numbered in the order of service. -/
  id_lt : ∀ block ∈ b.blocks, block.id < b.nextBlock
  /-- No two live blocks have the same number. -/
  ids_nodup : (b.blocks.map Block.id).Nodup
  /-- Every live block is owned by a heap that was made. -/
  heap_lt : ∀ block ∈ b.blocks, block.heap < b.heaps.length
  /-- Every heap counts the live blocks that it owns. -/
  liveBlocks_eq : ∀ (i : Nat) (heap : Heap), b.heaps[i]? = some heap →
    heap.liveBlocks = b.ownedBlocks i
  /-- No heap has more live blocks than it has served. -/
  liveBlocks_le : ∀ (i : Nat) (heap : Heap), b.heaps[i]? = some heap →
    heap.liveBlocks ≤ heap.totalAllocations

/-- To free what is at a pointer would take the count of a heap below zero. -/
def Underflows (b : Backend) (p : Pointer) : Prop :=
  ∃ block heap, b.block? p = some block ∧ b.heaps[block.heap]? = some heap ∧ heap.liveBlocks = 0

/-! ## The block at a pointer -/

/-- Only a pointer to the start of a block finds it. -/
theorem block?_eq_some (h : b.block? p = some block) :
    block ∈ b.blocks ∧ p = .block block.id 0 := by
  unfold block? at h
  split at h
  · next id =>
    have hid := List.find?_some (p := fun block : Block => block.id == id) h
    exact ⟨List.mem_of_find?_eq_some h, by rw [beq_iff_eq.1 hid]⟩
  · cases h

/-- Nothing else than the start of a block is looked up. -/
theorem block?_eq_none (h : ∀ id, p ≠ .block id 0) : b.block? p = none := by
  unfold block?
  split
  · next id => exact absurd rfl (h id)
  · rfl

/-- The number of a block that was not served finds nothing. -/
theorem WellFormed.block?_nextBlock (hb : b.WellFormed) : b.block? (.block b.nextBlock 0) = none :=
  List.find?_eq_none.2 fun block hmem heq =>
    absurd (beq_iff_eq.1 heq) (hb.id_lt block hmem).ne

/-- What is found depends on the blocks only. -/
theorem block?_congr (h : b'.blocks = b.blocks) (q : Pointer) : b'.block? q = b.block? q := by
  unfold block?
  rw [h]

/-- A block that is served is found, and all others as before. -/
theorem WellFormed.block?_serve (hb : b.WellFormed) (i size : Nat) (c : Contents) (q : Pointer) :
    (b.serve i size c).1.block? q =
      if q = .block b.nextBlock 0 then some ⟨b.nextBlock, i, max size 1, c⟩ else b.block? q := by
  by_cases hq : ∃ id, q = .block id 0
  · obtain ⟨id, rfl⟩ := hq
    have hfind : (b.serve i size c).1.block? (.block id 0) =
        (b.block? (.block id 0)).or ([⟨b.nextBlock, i, max size 1, c⟩].find? (·.id == id)) :=
      List.find?_append
    rw [hfind]
    split
    · next heq =>
      obtain rfl : id = b.nextBlock := (Pointer.block.inj heq).1
      rw [hb.block?_nextBlock, Option.none_or, List.find?_cons_of_pos (by simp)]
    · next hne =>
      have hid : b.nextBlock ≠ id := fun heq => hne (by rw [← heq])
      rw [List.find?_cons_of_neg (by simpa using hid), List.find?_nil, Option.or_none]
  · have hne : ∀ id, q ≠ .block id 0 := fun id heq => hq ⟨id, heq⟩
    rw [if_neg (hne _), block?_eq_none hne, block?_eq_none hne]

/-- Where no live block starts, nothing is freed. -/
theorem free_of_block?_eq_none (h : b.block? p = none) : b.free p = b := by
  unfold free
  rw [h]

/-- The live block at a pointer is the one that is freed. -/
theorem blocks_free (h : b.block? p = some block) :
    (b.free p).blocks = b.blocks.filter fun other => other.id != block.id := by
  unfold free
  rw [h]
  rfl

/-- What is freed is found no more, and all else as before. -/
theorem block?_free (b : Backend) (p q : Pointer) :
    (b.free p).block? q = if q = p then none else b.block? q := by
  unfold free
  split
  · next hp =>
    split
    · next heq => rw [heq, hp]
    · rfl
  · next block hp =>
    obtain ⟨-, rfl⟩ := block?_eq_some hp
    by_cases hq : ∃ id, q = .block id 0
    · obtain ⟨id, rfl⟩ := hq
      change (b.blocks.filter fun other => other.id != block.id).find? (·.id == id) = _
      rw [List.find?_filter]
      split
      · next heq =>
        obtain rfl := (Pointer.block.inj heq).1
        exact List.find?_eq_none.2 fun other _ => by simp +contextual
      · next hne =>
        have hid : id ≠ block.id := fun heq => hne (by rw [heq])
        refine List.find?_congr fun other _ => ?_
        by_cases hother : other.id = id <;> simp [hother, hid]
    · have hne : ∀ id, q ≠ .block id 0 := fun id heq => hq ⟨id, heq⟩
      rw [if_neg (hne _), block?_eq_none hne, block?_eq_none hne]

/-- A block whose contents are changed is found with the new ones. -/
theorem block?_modifyContents (b : Backend) (id : Nat) (f : Contents → Contents) (q : Pointer) :
    (b.modifyContents id f).block? q =
      (b.block? q).map fun block =>
        if block.id = id then { block with contents := f block.contents } else block := by
  by_cases hq : ∃ id, q = .block id 0
  · obtain ⟨id', rfl⟩ := hq
    change (List.map _ b.blocks).find? _ = _
    rw [List.find?_map]
    congr 1
    refine List.find?_congr fun block _ => ?_
    by_cases hid : block.id = id <;> simp [hid]
  · have hne : ∀ id, q ≠ .block id 0 := fun id heq => hq ⟨id, heq⟩
    rw [block?_eq_none hne, block?_eq_none hne, Option.map_none]

/-! ## The owner of a block -/

/-- Owners depend on the blocks only. -/
theorem owner?_congr (h : b'.blocks = b.blocks) (q : Pointer) : b'.owner? q = b.owner? q := by
  rw [owner?, owner?, block?_congr h]

/-- A block that is served is owned by the heap that serves it. -/
theorem WellFormed.owner?_serve (hb : b.WellFormed) (i size : Nat) (c : Contents) (q : Pointer) :
    (b.serve i size c).1.owner? q =
      if q = .block b.nextBlock 0 then some (.ofIndex i) else b.owner? q := by
  rw [owner?, owner?, hb.block?_serve]
  split <;> rfl

/-- What is freed has no owner, and all else the one it had. -/
theorem owner?_free (b : Backend) (p q : Pointer) :
    (b.free p).owner? q = if q = p then none else b.owner? q := by
  rw [owner?, owner?, block?_free]
  split <;> rfl

/-- Changes of contents leave the owners. -/
theorem owner?_modifyContents (b : Backend) (id : Nat) (f : Contents → Contents) (q : Pointer) :
    (b.modifyContents id f).owner? q = b.owner? q := by
  rw [owner?, owner?, block?_modifyContents, Option.map_map]
  congr 1
  funext block
  rw [Function.comp_apply]
  split <;> rfl

/-- What is stored changes contents at most. -/
theorem owner?_write (b : Backend) (p : Pointer) (bytes : List UInt8) (q : Pointer) :
    (b.write p bytes).owner? q = b.owner? q := by
  unfold write
  split
  · exact owner?_modifyContents ..
  · rfl

/-! ## Requests -/

/-- A heap can serve a request for some number of bytes with a block that holds something. -/
structure CanServe (b : Backend) (k : HeapHandle) (size i : Nat) (c : Contents) : Prop where
  /-- The handle is that of a heap. -/
  index?_eq : k.index? = some i
  /-- The heap was made and is not exhausted. -/
  heap : ∃ heap, b.heaps[i]? = some heap ∧ heap.exhausted = false
  /-- A block can be laid out with that size. -/
  size_le : size ≤ maxSize
  /-- The system allocator has the memory, which holds just that or is cleared. -/
  memory : ∃ fresh, b.memory (max size 1) = some fresh ∧ (c = fresh ∨ c = Contents.zero)

/-- The heap that serves was made. -/
theorem CanServe.lt (h : b.CanServe k size i c) : i < b.heaps.length := by
  obtain ⟨heap, hheap, -⟩ := h.heap
  exact (List.getElem?_eq_some_iff.1 hheap).1

/-- A request is served by the heap that is asked, or nothing happens. -/
theorem allocBlock_cases (b : Backend) (k : HeapHandle) (size : Nat) (zeroed : Bool) :
    b.allocBlock k size zeroed = (b, .null) ∨
      ∃ i c, b.CanServe k size i c ∧ b.allocBlock k size zeroed = b.serve i size c := by
  unfold allocBlock
  split
  · exact Or.inl rfl
  next i hi =>
  split
  · exact Or.inl rfl
  next heap hheap =>
  split
  · exact Or.inl rfl
  next hserves =>
  split
  · exact Or.inl rfl
  next fresh hfresh =>
  rw [not_or, Bool.not_eq_true, not_lt] at hserves
  refine Or.inr ⟨i, _, ⟨hi, ⟨heap, hheap, hserves.1⟩, hserves.2, ⟨fresh, hfresh, ?_⟩⟩, rfl⟩
  cases zeroed with
  | true => exact Or.inr rfl
  | false => exact Or.inl rfl

/-- A request is served by the heap that is asked, or nothing happens. -/
theorem alloc_cases (b : Backend) (k : HeapHandle) (size : Nat) :
    b.alloc k size = (b, .null) ∨
      ∃ i c, b.CanServe k size i c ∧ b.alloc k size = b.serve i size c :=
  b.allocBlock_cases k size false

/-- A request for zeros is one for their number of bytes, or nothing happens. -/
theorem allocZeroed_cases (b : Backend) (k : HeapHandle) (count size : Nat) :
    b.allocZeroed k count size = (b, .null) ∨
      ∃ i c, b.CanServe k (count * size) i c ∧
        b.allocZeroed k count size = b.serve i (count * size) c := by
  unfold allocZeroed checkedMul
  split
  · next total htotal =>
    split at htotal
    · cases htotal
      exact b.allocBlock_cases k (count * size) true
    · cases htotal
  · exact Or.inl rfl

/-- A live block is moved to one that the asked heap serves, or nothing happens. -/
theorem resize_cases (b : Backend) (k : HeapHandle) (hp : p ≠ .null) (size : Nat) :
    b.resize k p size = (b, .null) ∨
      ∃ old i c, b.block? p = some old ∧ b.CanServe k size i c ∧
        b.resize k p size =
          (((b.serve i size c).1.modifyContents b.nextBlock fun fresh =>
            fresh.copy old.contents (min old.size size)).free p, .block b.nextBlock 0) := by
  unfold resize
  rw [if_neg (by simpa [Pointer.isNull] using hp)]
  split
  · exact Or.inl rfl
  next old hold =>
  rcases alloc_cases b k size with hnone | ⟨i, c, hi, hserved⟩
  · rw [hnone]
    exact Or.inl rfl
  · rw [hserved]
    exact Or.inr ⟨old, i, c, hold, hi, rfl⟩

/-! ## Heaps -/

/-- A heap after a change is what the change makes of it, or as it was when it is another one. -/
theorem exists_of_modifyHeap {f : Heap → Heap} (h : (b.modifyHeap i f).heaps[j]? = some heap) :
    ∃ old, b.heaps[j]? = some old ∧ heap = if i = j then f old else old := by
  change (b.heaps.modify i f)[j]? = some heap at h
  rw [List.getElem?_modify, Option.map_eq_map, Option.map_eq_some_iff] at h
  obtain ⟨old, hold, heq⟩ := h
  exact ⟨old, hold, heq.symm⟩

/-- A change of a heap makes no heap. -/
@[simp]
theorem length_modifyHeap (b : Backend) (i : Nat) (f : Heap → Heap) :
    (b.modifyHeap i f).heaps.length = b.heaps.length :=
  List.length_modify ..

/-- A block that is served makes no heap. -/
theorem length_heaps_serve (b : Backend) (i size : Nat) (c : Contents) :
    (b.serve i size c).1.heaps.length = b.heaps.length :=
  length_modifyHeap ..

/-- A block that is freed makes no heap. -/
theorem length_heaps_free (b : Backend) (p : Pointer) :
    (b.free p).heaps.length = b.heaps.length := by
  unfold free
  split
  · rfl
  · exact length_modifyHeap ..

/-- What is stored makes no heap. -/
theorem length_heaps_write (b : Backend) (p : Pointer) (bytes : List UInt8) :
    (b.write p bytes).heaps.length = b.heaps.length := by
  unfold write
  split <;> rfl

/-- A heap that is exhausted or recovers makes no heap. -/
theorem length_heaps_setExhausted (b : Backend) (k : HeapHandle) (on : Bool) :
    (b.setExhausted k on).heaps.length = b.heaps.length := by
  unfold setExhausted
  split
  · exact length_modifyHeap ..
  · rfl

/-- A heap that is exhausted or recovers keeps its blocks. -/
theorem blocks_setExhausted (b : Backend) (k : HeapHandle) (on : Bool) :
    (b.setExhausted k on).blocks = b.blocks := by
  unfold setExhausted
  split <;> rfl

/-- A backend that is asked for a heap keeps its blocks. -/
theorem blocks_createHeap (b : Backend) : b.createHeap.1.blocks = b.blocks := by
  unfold createHeap
  split <;> rfl

/-- A backend stays well formed when what a heap counts stays. -/
theorem WellFormed.modifyHeap (hb : b.WellFormed) {g : Heap → Heap}
    (hlive : ∀ heap, (g heap).liveBlocks = heap.liveBlocks)
    (htotal : ∀ heap, (g heap).totalAllocations = heap.totalAllocations) :
    (b.modifyHeap i g).WellFormed where
  id_lt := hb.id_lt
  ids_nodup := hb.ids_nodup
  heap_lt block hblock := by
    rw [length_modifyHeap]
    exact hb.heap_lt block hblock
  liveBlocks_eq j heap hheap := by
    obtain ⟨old, hold, rfl⟩ := exists_of_modifyHeap hheap
    split
    · exact (hlive old).trans (hb.liveBlocks_eq j old hold)
    · exact hb.liveBlocks_eq j old hold
  liveBlocks_le j heap hheap := by
    obtain ⟨old, hold, rfl⟩ := exists_of_modifyHeap hheap
    split
    · rw [hlive, htotal]
      exact hb.liveBlocks_le j old hold
    · exact hb.liveBlocks_le j old hold

/-- A backend stays well formed when a heap is exhausted or recovers. -/
theorem WellFormed.setExhausted (hb : b.WellFormed) (k : HeapHandle) (on : Bool) :
    (b.setExhausted k on).WellFormed := by
  unfold Backend.setExhausted
  split
  · exact hb.modifyHeap (fun _ => rfl) (fun _ => rfl)
  · exact hb

/-- A backend stays well formed when it is told whether to make heaps. -/
theorem WellFormed.setRefusing (hb : b.WellFormed) (on : Bool) : (b.setRefusing on).WellFormed :=
  ⟨hb.id_lt, hb.ids_nodup, hb.heap_lt, hb.liveBlocks_eq, hb.liveBlocks_le⟩

/-- A backend stays well formed when the system allocator answers otherwise. -/
theorem WellFormed.setMemory (hb : b.WellFormed) (memory : Nat → Option Contents) :
    (b.setMemory memory).WellFormed :=
  ⟨hb.id_lt, hb.ids_nodup, hb.heap_lt, hb.liveBlocks_eq, hb.liveBlocks_le⟩

/-- A backend that makes heaps adds one that has served nothing. -/
theorem createHeap_of_makes (h : b.refusesHeaps = false) :
    b.createHeap =
      ({ b with heaps := b.heaps ++ [⟨false, 0, 0⟩] }, some (.ofIndex b.heaps.length)) :=
  if_neg (by rw [h]; exact Bool.false_ne_true)

/-- A backend that makes no heaps stays as it is. -/
theorem createHeap_of_refuses (h : b.refusesHeaps = true) : b.createHeap = (b, none) :=
  if_pos h

/-- A backend stays well formed when it is asked for a heap, since a new heap owns nothing. -/
theorem WellFormed.createHeap (hb : b.WellFormed) : b.createHeap.1.WellFormed := by
  unfold Backend.createHeap
  split
  · exact hb
  -- A heap from before, or the new one.
  have hheaps : ∀ j heap, (b.heaps ++ [⟨false, 0, 0⟩])[j]? = some heap →
      b.heaps[j]? = some heap ∨ j = b.heaps.length ∧ heap = ⟨false, 0, 0⟩ := by
    intro j heap hheap
    rw [List.getElem?_append, List.getElem?_singleton] at hheap
    split at hheap
    · exact Or.inl hheap
    · next hge =>
      split at hheap
      · next hzero => exact Or.inr ⟨by omega, (Option.some.inj hheap).symm⟩
      · cases hheap
  constructor
  · exact hb.id_lt
  · exact hb.ids_nodup
  · intro block hblock
    rw [List.length_append]
    exact Nat.lt_add_right _ (hb.heap_lt block hblock)
  · intro j heap hheap
    rcases hheaps j heap hheap with hheap | ⟨rfl, rfl⟩
    · exact hb.liveBlocks_eq j heap hheap
    · exact (List.countP_eq_zero.2 fun block hblock heq =>
        absurd (beq_iff_eq.1 heq) (hb.heap_lt block hblock).ne).symm
  · intro j heap hheap
    rcases hheaps j heap hheap with hheap | ⟨rfl, rfl⟩
    · exact hb.liveBlocks_le j heap hheap
    · exact le_rfl

/-! ## Blocks come and go -/

/-- A backend without heaps is well formed. -/
theorem wellFormed_empty : empty.WellFormed where
  id_lt := by simp [empty]
  ids_nodup := List.nodup_nil
  heap_lt := by simp [empty]
  liveBlocks_eq := by simp [empty]
  liveBlocks_le := by simp [empty]

/-- The heap that serves a block owns one more, and all others as many as before. -/
theorem ownedBlocks_serve (b : Backend) (i size : Nat) (c : Contents) (j : Nat) :
    (b.serve i size c).1.ownedBlocks j = b.ownedBlocks j + if i = j then 1 else 0 := by
  change (b.blocks ++ [_]).countP _ = _
  rw [List.countP_append, List.countP_singleton]
  simp only [beq_iff_eq]
  rfl

/-- A backend stays well formed when a heap serves a block. -/
theorem WellFormed.serve (hb : b.WellFormed) (hi : i < b.heaps.length) (size : Nat) (c : Contents) :
    (b.serve i size c).1.WellFormed where
  id_lt block hblock := by
    rcases List.mem_append.1 hblock with hblock | hblock
    · exact Nat.lt_succ_of_lt (hb.id_lt block hblock)
    · rw [List.mem_singleton.1 hblock]
      exact Nat.lt_succ_self _
  ids_nodup := by
    change ((b.blocks ++ [_]).map Block.id).Nodup
    rw [List.map_append, List.nodup_append]
    refine ⟨hb.ids_nodup, List.nodup_singleton _, fun id hid id' hid' => ?_⟩
    obtain ⟨block, hblock, rfl⟩ := List.mem_map.1 hid
    rw [List.mem_singleton.1 hid']
    exact (hb.id_lt block hblock).ne
  heap_lt block hblock := by
    rw [length_heaps_serve]
    rcases List.mem_append.1 hblock with hblock | hblock
    · exact hb.heap_lt block hblock
    · rw [List.mem_singleton.1 hblock]
      exact hi
  liveBlocks_eq j heap hheap := by
    obtain ⟨old, hold, rfl⟩ := exists_of_modifyHeap hheap
    rw [ownedBlocks_serve, ← hb.liveBlocks_eq j old hold]
    split
    · rfl
    · rfl
  liveBlocks_le j heap hheap := by
    obtain ⟨old, hold, rfl⟩ := exists_of_modifyHeap hheap
    have hle := hb.liveBlocks_le j old hold
    split
    · exact Nat.succ_le_succ hle
    · exact hle

/-- The heap of a block that is dropped owned one more, and all others as many. -/
theorem WellFormed.ownedBlocks_dropBlock (hb : b.WellFormed) (hblock : block ∈ b.blocks) (j : Nat) :
    b.ownedBlocks j =
      (b.dropBlock block.id).ownedBlocks j + if block.heap = j then 1 else 0 := by
  unfold ownedBlocks
  rw [(perm_cons_filter_ne hb.ids_nodup hblock).countP_eq, List.countP_cons]
  simp only [beq_iff_eq]
  rfl

/-- The heap of a block that is freed owned one more, and all others as many. -/
theorem WellFormed.ownedBlocks_free (hb : b.WellFormed) (hp : b.block? p = some block) (j : Nat) :
    b.ownedBlocks j = (b.free p).ownedBlocks j + if block.heap = j then 1 else 0 := by
  have hdropped : (b.free p).ownedBlocks j = (b.dropBlock block.id).ownedBlocks j := by
    rw [ownedBlocks, blocks_free hp]
    rfl
  rw [hdropped]
  exact hb.ownedBlocks_dropBlock (block?_eq_some hp).1 j

/-- A backend stays well formed when a block is freed. -/
theorem WellFormed.free (hb : b.WellFormed) (p : Pointer) : (b.free p).WellFormed := by
  unfold Backend.free
  split
  · exact hb
  next block hp =>
  have hmem := (block?_eq_some hp).1
  constructor
  · exact fun other hother => hb.id_lt other (List.mem_filter.1 hother).1
  · exact hb.ids_nodup.sublist (List.filter_sublist.map _)
  · intro other hother
    rw [length_modifyHeap]
    exact hb.heap_lt other (List.mem_filter.1 hother).1
  · intro j heap hheap
    obtain ⟨old, hold, rfl⟩ := exists_of_modifyHeap hheap
    have hcount := hb.liveBlocks_eq j old hold
    rw [hb.ownedBlocks_dropBlock hmem j] at hcount
    change _ = (b.dropBlock block.id).ownedBlocks j
    split at hcount
    · next heq => simp only [if_pos heq, hcount, Nat.add_sub_cancel]
    · next hne => simpa only [if_neg hne, Nat.add_zero] using hcount
  · intro j heap hheap
    obtain ⟨old, hold, rfl⟩ := exists_of_modifyHeap hheap
    have hle := hb.liveBlocks_le j old hold
    split
    · exact (Nat.sub_le _ _).trans hle
    · exact hle

/-- Contents are neither numbers nor owners nor sizes. -/
theorem map_modifyContents {κ : Type} (key : Block → κ)
    (hkey : ∀ block c, key { block with contents := c } = key block) (b : Backend) (id : Nat)
    (f : Contents → Contents) : (b.modifyContents id f).blocks.map key = b.blocks.map key := by
  change List.map _ (List.map _ b.blocks) = _
  rw [List.map_map]
  refine List.map_congr_left fun block _ => ?_
  rw [Function.comp_apply]
  split
  · exact hkey block _
  · rfl

/-- Every heap owns as many blocks when contents change. -/
theorem ownedBlocks_modifyContents (b : Backend) (id : Nat) (f : Contents → Contents) (j : Nat) :
    (b.modifyContents id f).ownedBlocks j = b.ownedBlocks j := by
  have hcount : ∀ blocks : List Block,
      blocks.countP (·.heap == j) = (blocks.map Block.heap).countP (· == j) := fun blocks => by
    rw [List.countP_map]; rfl
  rw [ownedBlocks, hcount, map_modifyContents Block.heap (fun _ _ => rfl), ← hcount, ownedBlocks]

/-- A backend stays well formed when contents change. -/
theorem WellFormed.modifyContents (hb : b.WellFormed) (id : Nat) (f : Contents → Contents) :
    (b.modifyContents id f).WellFormed := by
  have hids := map_modifyContents Block.id (fun _ _ => rfl) b id f
  have howners := map_modifyContents Block.heap (fun _ _ => rfl) b id f
  constructor
  · intro block hblock
    obtain ⟨old, hold, heq⟩ := List.mem_map.1 (hids ▸ List.mem_map_of_mem hblock)
    exact heq ▸ hb.id_lt old hold
  · exact hids ▸ hb.ids_nodup
  · intro block hblock
    obtain ⟨old, hold, heq⟩ := List.mem_map.1 (howners ▸ List.mem_map_of_mem hblock)
    exact heq ▸ hb.heap_lt old hold
  · intro j heap hheap
    rw [ownedBlocks_modifyContents]
    exact hb.liveBlocks_eq j heap hheap
  · exact hb.liveBlocks_le

/-- A backend stays well formed when bytes are stored. -/
theorem WellFormed.write (hb : b.WellFormed) (p : Pointer) (bytes : List UInt8) :
    (b.write p bytes).WellFormed := by
  unfold Backend.write
  split
  · exact hb.modifyContents ..
  · exact hb

/-- By its handle, too, every heap counts the live blocks that it owns. -/
theorem WellFormed.liveBlocks_ofIndex (hb : b.WellFormed) (i : Nat) :
    b.liveBlocks (.ofIndex i) = b.ownedBlocks i := by
  have hheap : b.heap? (.ofIndex i) = b.heaps[i]? := by
    rw [heap?, HeapHandle.index?_ofIndex, Option.bind_some]
  rw [liveBlocks, hheap]
  cases hi : b.heaps[i]? with
  | some heap => exact hb.liveBlocks_eq i heap hi
  | none =>
    -- A heap that was not made owns nothing.
    have hle : b.heaps.length ≤ i := List.getElem?_eq_none_iff.1 hi
    refine (List.countP_eq_zero.2 fun block hblock heq => ?_).symm
    have hlt := hb.heap_lt block hblock
    rw [beq_iff_eq.1 heq] at hlt
    exact absurd hle (not_le.2 hlt)

/-- By its handle, too, no heap has more live blocks than it has served. -/
theorem WellFormed.liveBlocks_le_totalAllocations (hb : b.WellFormed) (k : HeapHandle) :
    b.liveBlocks k ≤ b.totalAllocations k := by
  unfold liveBlocks totalAllocations heap?
  cases hk : k.index? with
  | none => exact le_rfl
  | some i =>
    rw [Option.bind_some]
    cases hi : b.heaps[i]? with
    | none => exact le_rfl
    | some heap => exact hb.liveBlocks_le i heap hi

/-- In a backend that is well formed nothing that is freed takes a count below zero. -/
theorem WellFormed.not_underflows (hb : b.WellFormed) (p : Pointer) : ¬ b.Underflows p := by
  rintro ⟨block, heap, hp, hheap, hzero⟩
  have hcount := hb.liveBlocks_eq block.heap heap hheap
  rw [hzero] at hcount
  exact absurd (beq_self_eq_true block.heap)
    (List.countP_eq_zero.1 hcount.symm block (block?_eq_some hp).1)

end Backend

end HeapDomains
