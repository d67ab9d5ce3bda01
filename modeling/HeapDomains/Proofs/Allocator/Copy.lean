import HeapDomains.Proofs.Allocator.Claims

/-!
# What is copied when a claim is moved

A buffer does not remember how long its claims are, so a claim that is moved takes along all that
follows it, as far as the new place and the buffer reach (`LaidOut.copied_eq`). What follows may
belong to other claims. Hence what ends up in the new place shows nothing of the other claims
exactly when none of them starts so near (`copied_eq_iff_apart`). When one does, its bytes may come
to a heap that unsafe code can reach (`exists_copied_ne`).
-/

namespace HeapDomains

open BootstrapBuffer (Claim capacity place? remainingFrom rounded)

variable {slots : Nat} {a a' : DomainAllocator slots} {l l' : Ledger slots} {g : Grant}
  {state : DomainState} {p q : Pointer} {size start : Nat} {bytes : List UInt8}

/-! ## Stores, releases and requests -/

/-- A buffer with more than one claim is not cleared when one is released. -/
theorem BootstrapBuffer.contents_release {b : BootstrapBuffer} (h : 1 < b.liveClaims) :
    b.release.contents = b.contents := by
  have hmore : ¬ b.liveClaims - 1 = 0 := by omega
  unfold release
  rw [if_neg hmore]

/-- From the start of a live block its contents are read. -/
theorem Backend.read_of_block? {b : Backend} {block : Block} (h : b.block? p = some block)
    (count : Nat) : b.read p count = block.contents.read 0 count := by
  obtain ⟨-, rfl⟩ := block?_eq_some h
  have hfound : b.blocks.find? (fun other => other.id == block.id) = some block := h
  unfold read
  dsimp only
  rw [hfound]
  rfl

namespace DomainAllocator

/-- What is stored in a claim or in a live block can be read. -/
theorem read_write
    (hq : (∃ start, place? q = some start) ∨ ∃ block, a.pool.backend.block? q = some block) :
    (a.write q bytes).read q bytes.length = bytes := by
  rcases hq with ⟨start, hstart⟩ | ⟨block, hblock⟩
  · unfold read write
    rw [hstart]
    exact Contents.read_write ..
  · obtain ⟨-, rfl⟩ := Backend.block?_eq_some hblock
    have hnone : place? (.block block.id 0) = none := rfl
    have hfilled := Backend.block?_modifyContents a.pool.backend block.id
      (fun c => c.write (0 : Int).toNat bytes) (.block block.id 0)
    rw [hblock, Option.map_some, if_pos rfl] at hfilled
    unfold read write
    rw [hnone]
    exact (Backend.read_of_block? hfilled _).trans (Contents.read_write block.contents 0 bytes)

/-- A claim that is released leaves what is elsewhere: in a block, or in a claim when it was not the
last one. -/
theorem read_free (hp : place? p = some start)
    (hq : place? q = none ∨ 1 < a.bootstrap.liveClaims) (count : Nat) :
    (a.free p).read q count = a.read q count := by
  unfold free read
  rw [hp]
  split
  · next hplace =>
    have hmore := hq.resolve_left (by rw [hplace]; exact Option.some_ne_none _)
    unfold BootstrapBuffer.read
    rw [BootstrapBuffer.contents_release hmore]
  · rfl

/-- A request stores nothing in the buffer. -/
theorem Outcome.contents_eq (h : a.Outcome state size a' q) :
    a'.bootstrap.contents = a.bootstrap.contents := by
  cases h with
  | nothing => rfl
  | refused _ => rfl
  | claimed _ hclaim =>
    obtain ⟨-, -, rfl⟩ := BootstrapBuffer.claim_eq_ok hclaim
    rfl
  | served _ _ => rfl

/-- A request that is answered with a place in the buffer has made one more claim. -/
theorem Outcome.liveClaims_eq (h : a.Outcome state size a' q) (hq : place? q = some start) :
    a'.bootstrap.liveClaims = a.bootstrap.liveClaims + 1 := by
  cases h with
  | nothing => cases hq
  | refused _ => cases hq
  | claimed _ hclaim =>
    obtain ⟨-, -, rfl⟩ := BootstrapBuffer.claim_eq_ok hclaim
    rfl
  | served _ _ => cases hq

/-- What is stored makes and releases no claim. -/
theorem liveClaims_write (a : DomainAllocator slots) (p : Pointer) (bytes : List UInt8) :
    (a.write p bytes).bootstrap.liveClaims = a.bootstrap.liveClaims := by
  unfold write
  split <;> rfl

/-- A claim starts at the free end when there is room. -/
theorem claimBootstrap_snd (a : DomainAllocator slots) (size : Nat) :
    (a.claimBootstrap size).2 =
      if wordLimit ≤ rounded size ∨ capacity - a.bootstrap.cursor < rounded size then .null
      else .buffer a.bootstrap.cursor := by
  unfold claimBootstrap BootstrapBuffer.claim
  by_cases hlarge : wordLimit ≤ rounded size
  · rw [if_pos hlarge, if_pos (Or.inl hlarge)]
  · rw [if_neg hlarge]
    by_cases hfull : capacity - a.bootstrap.cursor < rounded size
    · rw [if_pos hfull, if_pos (Or.inr hfull)]
    · rw [if_neg hfull, if_neg (not_or.2 ⟨hlarge, hfull⟩)]

/-- What a request is answered with does not depend on what the buffer holds. -/
theorem allocate_snd_congr (hpool : a'.pool = a.pool)
    (hinitializing : a'.initializing = a.initializing)
    (hcursor : a'.bootstrap.cursor = a.bootstrap.cursor) (state : DomainState) (size : Nat) :
    (a'.allocate state size).2 = (a.allocate state size).2 := by
  unfold allocate
  rw [hinitializing]
  split
  · rw [claimBootstrap_snd, claimBootstrap_snd, hcursor]
  · unfold serve heap backend
    rw [hpool]
    cases a.pool.heapForState state with
    | error _ => rfl
    | ok _ => rfl

/-- A claim is moved to where an allocation would be. -/
theorem resize_snd (hp : place? p = some start) (state : DomainState) (size : Nat) :
    (a.resize state p size).2 = (a.allocate state size).2 := by
  obtain ⟨⟨a', q⟩, hanswer⟩ : ∃ answer, a.allocate state size = answer := ⟨_, rfl⟩
  by_cases hnull : q = .null
  · subst hnull
    rw [resize_eq_null hp hanswer, hanswer]
  · rw [resize_eq_copy hp hanswer hnull, hanswer]

end DomainAllocator

/-! ## What is copied -/

/-- What is copied when a claim is moved, as it is read from the new place afterwards. -/
def DomainAllocator.copied (a : DomainAllocator slots) (state : DomainState) (c : Claim)
    (size : Nat) : List UInt8 :=
  (a.resize state (.buffer c.start) size).1.read (a.resize state (.buffer c.start) size).2
    (min (remainingFrom c.start) size)

namespace Ledger

/-- Two ledgers agree on all but what is stored in claims other than one. -/
structure AgreesApart (l l' : Ledger slots) (c : Claim) : Prop where
  /-- The same is held. -/
  grants_eq : l'.grants = l.grants
  /-- The heaps and the blocks are the same. -/
  pool_eq : l'.allocator.pool = l.allocator.pool
  /-- Both allocators are being initialized, or none of them is. -/
  initializing_eq : l'.allocator.initializing = l.allocator.initializing
  /-- The free end is the same. -/
  cursor_eq : l'.allocator.bootstrap.cursor = l.allocator.bootstrap.cursor
  /-- As many claims are live. -/
  liveClaims_eq : l'.allocator.bootstrap.liveClaims = l.allocator.bootstrap.liveClaims
  /-- The buffer holds the same where no other claim lies. -/
  contents_eq : ∀ i, (∀ c' ∈ l.heldClaims, c' ≠ c → ¬ c'.Covers i) →
    l'.allocator.bootstrap.contents i = l.allocator.bootstrap.contents i

variable {c c' : Claim}

/-- A claim that is held starts at a place in the buffer. -/
theorem LaidOut.place?_start (h : l.LaidOut) (hc : c ∈ l.heldClaims) :
    place? (.buffer c.start) = some c.start :=
  BootstrapBuffer.place?_buffer (h.layout.start_lt hc)

/-- The answer to a request is a claim or a live block. -/
theorem LaidOut.exists_place_or_block (h : l.LaidOut) (hq : q ≠ .null)
    (houtcome : l.allocator.Outcome state size a' q) :
    (∃ place, place? q = some place) ∨ ∃ block, a'.pool.backend.block? q = some block := by
  cases hplace : place? q with
  | some place => exact Or.inl ⟨place, rfl⟩
  | none => exact Or.inr ((h.given houtcome).exists_block (mem_given hq) hplace)

/-- A claim that is moved is not the last one when its new place is a claim, too. -/
theorem LaidOut.place?_eq_none_or_lt_liveClaims (h : l.LaidOut) (hc : c ∈ l.heldClaims)
    (houtcome : l.allocator.Outcome state size a' q) :
    place? q = none ∨ 1 < (a'.write q bytes).bootstrap.liveClaims := by
  cases hplace : place? q with
  | none => exact Or.inl rfl
  | some place =>
    have hmore : 0 < l.heldClaims.length := List.length_pos_of_mem hc
    rw [DomainAllocator.liveClaims_write, houtcome.liveClaims_eq hplace, h.layout.liveClaims_eq]
    exact Or.inr (by omega)

/-- What is copied is what follows the start of a claim, if there is a new place. -/
theorem LaidOut.copied_eq (h : l.LaidOut) (hc : c ∈ l.heldClaims)
    (hserved : (l.allocator.resize state (.buffer c.start) size).2 ≠ .null) :
    l.allocator.copied state c size =
      l.allocator.bootstrap.read c.start (min (remainingFrom c.start) size) := by
  have hplace := h.place?_start hc
  obtain ⟨⟨a', q⟩, hanswer⟩ : ∃ answer, l.allocator.allocate state size = answer := ⟨_, rfl⟩
  have houtcome : l.allocator.Outcome state size a' q := by
    have houtcome := l.allocator.outcome_allocate state size
    rw [hanswer] at houtcome
    exact houtcome
  have hq : q ≠ .null := by
    rw [DomainAllocator.resize_snd hplace, hanswer] at hserved
    exact hserved
  unfold DomainAllocator.copied
  rw [DomainAllocator.resize_eq_copy hplace hanswer hq]
  dsimp only
  generalize min (remainingFrom c.start) size = count
  have hcopied : a'.bootstrap.read c.start count = l.allocator.bootstrap.read c.start count := by
    unfold BootstrapBuffer.read
    rw [houtcome.contents_eq]
  rw [hcopied]
  generalize hbytes : l.allocator.bootstrap.read c.start count = bytes
  have hlength : count = bytes.length := by
    rw [← hbytes]
    exact (Contents.length_read ..).symm
  have hkept : place? q = none ∨ 1 < (a'.write q bytes).bootstrap.liveClaims :=
    h.place?_eq_none_or_lt_liveClaims hc houtcome
  calc ((a'.write q bytes).free (.buffer c.start)).read q count
    _ = (a'.write q bytes).read q count := DomainAllocator.read_free hplace hkept count
    _ = (a'.write q bytes).read q bytes.length := by rw [hlength]
    _ = bytes := DomainAllocator.read_write (h.exists_place_or_block hq houtcome)

namespace AgreesApart

/-- The same claims are held. -/
theorem heldClaims_eq (h : l.AgreesApart l' c) : l'.heldClaims = l.heldClaims :=
  congrArg (List.filterMap Grant.claim?) h.grants_eq

/-- A claim is moved to the same place. -/
theorem resize_snd (h : l.AgreesApart l' c) (hl : l.LaidOut) (hc : c ∈ l.heldClaims) :
    (l'.allocator.resize state (.buffer c.start) size).2 =
      (l.allocator.resize state (.buffer c.start) size).2 := by
  have hplace := hl.place?_start hc
  rw [DomainAllocator.resize_snd hplace, DomainAllocator.resize_snd hplace]
  exact DomainAllocator.allocate_snd_congr h.pool_eq h.initializing_eq h.cursor_eq state size

/-- The same is copied exactly when the buffer holds the same from the start of the claim on. -/
theorem copied_eq_iff (h : l.AgreesApart l' c) (hl : l.LaidOut) (hl' : l'.LaidOut)
    (hc : c ∈ l.heldClaims)
    (hserved : (l.allocator.resize state (.buffer c.start) size).2 ≠ .null) :
    l'.allocator.copied state c size = l.allocator.copied state c size ↔
      ∀ i, c.start ≤ i → i < c.start + min (remainingFrom c.start) size →
        l'.allocator.bootstrap.contents i = l.allocator.bootstrap.contents i := by
  rw [hl.copied_eq hc hserved, hl'.copied_eq (h.heldClaims_eq ▸ hc) (by rwa [h.resize_snd hl hc])]
  exact Contents.read_eq_read_iff

/-- The same is copied when no other claim starts where something is copied. -/
theorem copied_eq (h : l.AgreesApart l' c) (hl : l.LaidOut) (hl' : l'.LaidOut)
    (hc : c ∈ l.heldClaims)
    (hserved : (l.allocator.resize state (.buffer c.start) size).2 ≠ .null)
    (hfar : ∀ c' ∈ l.heldClaims, c'.start ≤ c.start ∨ c.start + size ≤ c'.start) :
    l'.allocator.copied state c size = l.allocator.copied state c size := by
  rw [h.copied_eq_iff hl hl' hc hserved]
  intro i hle hlt
  have hend : i < c.start + size :=
    lt_of_lt_of_le hlt (Nat.add_le_add_left (min_le_right _ _) c.start)
  refine h.contents_eq i fun c' hc' hne hcovers => ?_
  obtain ⟨hstart, hstop⟩ := hcovers
  have hpos := c.covers_start.2
  -- Another claim ends before this one starts, or starts where nothing is copied any more.
  rcases hl.layout.apart.forall hc' hc hne with hbefore | hafter
  · omega
  · rcases hfar c' hc' with hnear | hfar <;> omega

end AgreesApart

/-- The first byte of a claim may be stored, and nothing else changes then. -/
theorem LaidOut.stepBuffer_fill (h : l.LaidOut) (hc : c ∈ l.heldClaims) (byte : UInt8) :
    l.permitsBuffer (.fill (.buffer c.start) 0 [byte]) = true ∧
      l.stepBuffer (.fill (.buffer c.start) 0 [byte]) =
        { l with allocator := { l.allocator with
          bootstrap := l.allocator.bootstrap.write c.start [byte] } } := by
  obtain ⟨g, hg, hpointer, hplace, -⟩ := exists_grant_of_mem_heldClaims hc
  constructor
  · have hfits : 0 + [byte].length ≤ rounded g.size := BootstrapBuffer.rounded_pos g.size
    refine List.any_eq_true.2 ⟨g, hg, ?_⟩
    simp only [hpointer, hplace, hfits, beq_self_eq_true, Option.isSome_some, decide_true,
      Bool.and_self]
  · have hstart : place? ((Pointer.buffer c.start).shift (0 : Nat)) = some c.start :=
      h.place?_start hc
    have hwrite : l.allocator.write ((Pointer.buffer c.start).shift (0 : Nat)) [byte] =
        { l.allocator with bootstrap := l.allocator.bootstrap.write c.start [byte] } := by
      unfold DomainAllocator.write
      rw [hstart]
    exact congrArg (Ledger.mk · l.grants) hwrite

/-- A ledger agrees with the one in which another claim has another first byte. -/
theorem LaidOut.agreesApart_fill (h : l.LaidOut) (hc' : c' ∈ l.heldClaims) (hne : c' ≠ c)
    (byte : UInt8) : l.AgreesApart (l.stepBuffer (.fill (.buffer c'.start) 0 [byte])) c := by
  rw [(h.stepBuffer_fill hc' byte).2]
  refine ⟨rfl, rfl, rfl, rfl, rfl, fun i hfree => Contents.write_eq_self ?_⟩
  have hstart : c'.start ≠ i := fun heq => hfree c' hc' hne (heq ▸ c'.covers_start)
  rw [List.length_singleton]
  omega

/-- Another byte is copied when there is another one at the start of a claim that is copied. -/
theorem LaidOut.copied_fill_ne (h : l.LaidOut) (hc : c ∈ l.heldClaims) (hc' : c' ∈ l.heldClaims)
    (hserved : (l.allocator.resize state (.buffer c.start) size).2 ≠ .null)
    (hafter : c.start < c'.start) (hbefore : c'.start < c.start + size) {byte : UInt8}
    (hbyte : byte ≠ l.allocator.bootstrap.contents c'.start) :
    (l.stepBuffer (.fill (.buffer c'.start) 0 [byte])).allocator.copied state c size ≠
      l.allocator.copied state c size := by
  have hne : c' ≠ c := fun heq => lt_irrefl _ (heq ▸ hafter)
  obtain ⟨hpermits, hstep⟩ := h.stepBuffer_fill hc' byte
  have hagree := h.agreesApart_fill hc' hne byte
  have hreach : c'.start < c.start + min (remainingFrom c.start) size := by
    have hlt := h.layout.start_lt hc'
    rw [BootstrapBuffer.remainingFrom_natCast]
    omega
  intro hsame
  rw [hagree.copied_eq_iff h (h.stepBuffer hpermits) hc hserved] at hsame
  have hcopied := hsame c'.start hafter.le hreach
  rw [hstep] at hcopied
  have hstored : l.allocator.bootstrap.contents.write c'.start [byte] c'.start = byte := by
    rw [Contents.write, if_pos le_rfl, Nat.sub_self]
    rfl
  exact hbyte (hstored.symm.trans hcopied)

end Ledger

/-- What is copied when a claim is moved shows nothing of the other claims exactly when none of them
starts between the start of that claim and the end of as many bytes as are asked for. -/
theorem copied_eq_iff_apart {c : Claim} (events : List BufferEvent)
    (hrun : Ledger.empty.runBuffer events = some l) (hc : c ∈ l.heldClaims)
    (hserved : (l.allocator.resize state (.buffer c.start) size).2 ≠ .null) :
    (∀ events' l', Ledger.empty.runBuffer events' = some l' → l.AgreesApart l' c →
        l'.allocator.copied state c size = l.allocator.copied state c size) ↔
      ∀ c' ∈ l.heldClaims, c'.start ≤ c.start ∨ c.start + size ≤ c'.start := by
  have h : l.LaidOut := Ledger.laidOut_empty.runBuffer hrun
  constructor
  · intro hall c' hc'
    by_contra hnear
    rw [not_or, not_le, not_le] at hnear
    obtain ⟨hafter, hbefore⟩ := hnear
    -- In a run that ends with another byte there, the other byte is copied.
    obtain ⟨byte, hbyte⟩ : ∃ byte, byte ≠ l.allocator.bootstrap.contents c'.start :=
      ⟨l.allocator.bootstrap.contents c'.start + 1, by simp⟩
    have hne : c' ≠ c := fun heq => lt_irrefl _ (heq ▸ hafter)
    have hrun' := Ledger.runBuffer_concat hrun (h.stepBuffer_fill hc' byte).1
    exact h.copied_fill_ne hc hc' hserved hafter hbefore hbyte
      (hall _ _ hrun' (h.agreesApart_fill hc' hne byte))
  · intro hfar events' l' hrun' hagree
    exact hagree.copied_eq h (Ledger.laidOut_empty.runBuffer hrun') hc hserved hfar

/-- Two claims of a safe domain, one after the other, are held when an initialization ends. -/
def neighbours : List BufferEvent :=
  [.use .beginInitialization,
    .use (.allocate ⟨5, 0⟩ 16),
    .use (.allocate ⟨5, 0⟩ 16),
    .use .finishInitialization]

/-- The first of them shows nothing of the second one when it is moved to a block of its size. -/
theorem copied_eq_neighbours : ∃ l : Ledger 3, Ledger.empty.runBuffer neighbours = some l ∧
    (⟨0, 16⟩ : Claim) ∈ l.heldClaims ∧ (⟨16, 16⟩ : Claim) ∈ l.heldClaims ∧
      ∀ events' l', Ledger.empty.runBuffer events' = some l' → l.AgreesApart l' ⟨0, 16⟩ →
        l'.allocator.copied ⟨5, 1⟩ ⟨0, 16⟩ 16 = l.allocator.copied ⟨5, 1⟩ ⟨0, 16⟩ 16 := by
  refine ⟨_, rfl, by decide, by decide, (copied_eq_iff_apart neighbours rfl (by decide) ?_).2 ?_⟩
  · decide
  · decide

/-- What the second one holds comes to a heap that unsafe code can reach when the first one is moved
to a longer block there. -/
theorem exists_copied_ne : ∃ l l' : Ledger 3, Ledger.empty.runBuffer neighbours = some l ∧
    Ledger.empty.runBuffer (neighbours ++ [.fill (.buffer 16) 0 [42]]) = some l' ∧
      (⟨0, 16⟩ : Claim) ∈ l.heldClaims ∧ l.AgreesApart l' ⟨0, 16⟩ ∧
      (l'.allocator.resize ⟨5, 1⟩ (.buffer 0) 32).2 = .block 0 0 ∧
      l.allocator.copied ⟨5, 1⟩ ⟨0, 16⟩ 32 = List.replicate 32 0 ∧
      l'.allocator.copied ⟨5, 1⟩ ⟨0, 16⟩ 32 =
        List.replicate 16 0 ++ 42 :: List.replicate 15 0 := by
  have hrun : (Ledger.empty : Ledger 3).runBuffer neighbours = some _ := rfl
  refine ⟨_, _, hrun, rfl, by decide, ?_, rfl, by decide, by decide⟩
  exact (Ledger.laidOut_empty.runBuffer hrun).agreesApart_fill
    (show (⟨16, 16⟩ : Claim) ∈ _ by decide) (by decide) 42

end HeapDomains
