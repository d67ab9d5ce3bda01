import HeapDomains.Proofs.Allocator.Layout
import HeapDomains.Proofs.Allocator.Ledger

/-!
# Claims in use

The buffer of an allocator is used through the allocator, which claims bytes during an
initialization and gives claims back when they are freed or moved, and directly: bytes can be
claimed at any time, and a claim may be filled up to the end of what it takes. Whatever is done in
this way, the claims that are held are laid out (`LaidOut.stepBuffer`), and so the buffer accounts
for them (`accountsForClaims_of_runBuffer`). A claim that is moved to another one is copied into
what that one takes and released afterwards, so the copy stays below the cursor and the buffer is
never cleared by it.
-/

namespace HeapDomains

open BootstrapBuffer (Claim alignment capacity rounded place? LaysOut)

/-- The claim of a grant, if it is one. -/
def Grant.claim? (g : Grant) : Option Claim := g.place?.map (⟨·, g.size⟩)

/-- What can be done with an allocator and with its buffer. -/
inductive BufferEvent where
  /-- Something is done with the allocator, or happens to its backend. -/
  | use (e : AllocatorEvent)
  /-- Bytes of the buffer are claimed, whether or not the allocator is being initialized. -/
  | claim (state : DomainState) (size : Nat)
  /-- Bytes are stored in a claim, up to the end of what it takes. -/
  | fill (pointer : Pointer) (start : Nat) (bytes : List UInt8)

variable {slots : Nat} {l l' : Ledger slots} {a' : DomainAllocator slots} {g : Grant}
  {state : DomainState} {p q : Pointer} {size start place : Nat} {bytes : List UInt8}
  {e : BufferEvent}

/-- A grant with a place in the buffer is a claim there. -/
theorem Grant.claim?_of_place?_eq_some (h : g.place? = some start) :
    g.claim? = some ⟨start, g.size⟩ := by
  rw [claim?, h, Option.map_some]

/-- A grant without a place in the buffer is no claim. -/
theorem Grant.claim?_of_place?_eq_none (h : g.place? = none) : g.claim? = none := by
  rw [claim?, h, Option.map_none]

namespace Ledger

/-- The claims that are held. -/
def heldClaims (l : Ledger slots) : List Claim := l.grants.filterMap Grant.claim?

/-- Whether an event keeps to what is held. -/
def permitsBuffer (l : Ledger slots) : BufferEvent → Bool
  | .use e => l.permits e
  | .claim _ _ => true
  | .fill p start bytes =>
    l.grants.any fun g =>
      g.pointer == p && g.place?.isSome && start + bytes.length ≤ rounded g.size

/-- The ledger after an event. -/
def stepBuffer (l : Ledger slots) : BufferEvent → Ledger slots
  | .use e => l.step e
  | .claim state size => l.given (l.allocator.claimBootstrap size) state size
  | .fill p start bytes => { l with allocator := l.allocator.write (p.shift start) bytes }

/-- The ledger after some events, if each of them keeps to what is held then. -/
def runBuffer (l : Ledger slots) : List BufferEvent → Option (Ledger slots)
  | [] => some l
  | e :: events => if l.permitsBuffer e then (l.stepBuffer e).runBuffer events else none

/-- A ledger is in order, and the claims that are held are laid out. -/
structure LaidOut (l : Ledger slots) : Prop extends WellFormed l where
  /-- The buffer lays out the claims that are held. -/
  layout : l.allocator.bootstrap.LaysOut l.heldClaims

/-- A grant that is no claim adds none. -/
theorem filterMap_claim?_concat_of_none {grants : List Grant} (hplace : g.place? = none) :
    (grants ++ [g]).filterMap Grant.claim? = grants.filterMap Grant.claim? := by
  rw [List.filterMap_append, List.filterMap_cons_none (Grant.claim?_of_place?_eq_none hplace),
    List.filterMap_nil, List.append_nil]

/-- A grant that is a claim adds it. -/
theorem filterMap_claim?_concat_of_some {grants : List Grant} (hplace : g.place? = some start) :
    (grants ++ [g]).filterMap Grant.claim? =
      grants.filterMap Grant.claim? ++ [⟨start, g.size⟩] := by
  rw [List.filterMap_append, List.filterMap_cons_some (Grant.claim?_of_place?_eq_some hplace),
    List.filterMap_nil]

/-- A claim that is held is a grant at its place. -/
theorem exists_grant_of_mem_heldClaims {c : Claim} (hc : c ∈ l.heldClaims) :
    ∃ g ∈ l.grants, g.pointer = .buffer c.start ∧ g.place? = some c.start ∧ g.size = c.size := by
  obtain ⟨g, hg, hclaim⟩ := List.mem_filterMap.1 hc
  obtain ⟨start, hplace, rfl⟩ := Option.map_eq_some_iff.1 hclaim
  exact ⟨g, hg, (BootstrapBuffer.place?_eq_some hplace).1, hplace, rfl⟩

/-- One more event can follow a run. -/
theorem runBuffer_concat {events : List BufferEvent} {start : Ledger slots}
    (hrun : start.runBuffer events = some l) (hpermits : l.permitsBuffer e = true) :
    start.runBuffer (events ++ [e]) = some (l.stepBuffer e) := by
  induction events generalizing start with
  | nil =>
    cases hrun
    change (if l.permitsBuffer e then some (l.stepBuffer e) else none) = _
    rw [if_pos hpermits]
  | cons e' events ih =>
    rw [runBuffer] at hrun
    rw [List.cons_append, runBuffer]
    split at hrun
    · next hpermitted =>
      rw [if_pos hpermitted]
      exact ih hrun
    · cases hrun

/-- A new ledger lays out no claims. -/
theorem laidOut_empty : (empty : Ledger slots).LaidOut :=
  ⟨wellFormed_empty, BootstrapBuffer.laysOut_empty⟩

/-- A place in the buffer that is reached from something held lies in a claim. -/
theorem WellFormed.claim?_of_place?_shift (h : l.WellFormed) (hg : g ∈ l.grants)
    (hplace : place? (g.pointer.shift start) = some place) :
    ∃ base, g.claim? = some ⟨base, g.size⟩ ∧ place = base + start := by
  cases hbase : g.place? with
  | none =>
    -- What is no claim is a block, and no place in a block is one in the buffer.
    obtain ⟨block, hblock⟩ := h.exists_block hg hbase
    rw [(Backend.block?_eq_some hblock).2] at hplace
    cases hplace
  | some base =>
    have hpointer : g.pointer = .buffer base := (BootstrapBuffer.place?_eq_some hbase).1
    rw [hpointer] at hplace
    have hshifted : Pointer.buffer (base + start) = .buffer place :=
      (BootstrapBuffer.place?_eq_some hplace).1
    have hoffset := Pointer.buffer.inj hshifted
    exact ⟨base, Grant.claim?_of_place?_eq_some hbase, by omega⟩

namespace LaidOut

/-! ## Steps -/

/-- Claims stay laid out when bytes are stored that end, when in the buffer, before a claim does. -/
theorem write (h : l.LaidOut)
    (hwithin : ∀ place, place? p = some place → ∃ c ∈ l.heldClaims, place + bytes.length ≤ c.stop) :
    LaidOut { l with allocator := l.allocator.write p bytes } := by
  refine ⟨h.toWellFormed.write p bytes, ?_⟩
  change (l.allocator.write p bytes).bootstrap.LaysOut l.heldClaims
  unfold DomainAllocator.write
  split
  · next place hplace =>
    obtain ⟨c, hc, hle⟩ := hwithin place hplace
    exact h.layout.write (hle.trans (h.layout.stop_le c hc))
  · exact h.layout

/-- Claims stay laid out when bytes are stored in what something held takes. -/
theorem store (h : l.LaidOut) (hg : g ∈ l.grants)
    (hfits : start + bytes.length ≤ rounded g.size) :
    LaidOut { l with allocator := l.allocator.write (g.pointer.shift start) bytes } := by
  refine h.write fun place hplace => ?_
  obtain ⟨base, hclaim, rfl⟩ := h.claim?_of_place?_shift hg hplace
  refine ⟨_, List.mem_filterMap.2 ⟨g, hg, hclaim⟩, ?_⟩
  change base + start + bytes.length ≤ base + rounded g.size
  omega

/-- A claim that succeeds is laid out with the others. -/
theorem claim (h : l.LaidOut) {buffer : BootstrapBuffer}
    (hclaim : l.allocator.bootstrap.claim size = .ok (buffer, start)) (state : DomainState) :
    LaidOut ⟨{ l.allocator with bootstrap := buffer },
      l.grants ++ [⟨.buffer start, state, size⟩]⟩ := by
  refine ⟨h.toWellFormed.claim hclaim state, ?_⟩
  have hplace : Grant.place? ⟨.buffer start, state, size⟩ = some start :=
    BootstrapBuffer.place?_buffer (BootstrapBuffer.start_lt_of_claim hclaim)
  change buffer.LaysOut ((l.grants ++ [_]).filterMap Grant.claim?)
  rw [filterMap_claim?_concat_of_some hplace]
  exact (h.layout.claim hclaim).perm (List.perm_append_singleton _ _).symm

/-- Claims stay laid out whatever a request comes to. -/
theorem given (h : l.LaidOut) (houtcome : l.allocator.Outcome state size a' q) :
    (l.given (a', q) state size).LaidOut := by
  have hordered : (l.given (a', q) state size).WellFormed := h.toWellFormed.given houtcome
  cases houtcome with
  | nothing => exact h
  | refused _ => exact ⟨hordered, h.layout⟩
  | claimed _ hclaim => exact h.claim hclaim state
  | served _ _ =>
    refine ⟨hordered, ?_⟩
    change l.allocator.bootstrap.LaysOut ((l.grants ++ [_]).filterMap Grant.claim?)
    rw [filterMap_claim?_concat_of_none rfl]
    exact h.layout

/-- The other claims stay laid out when something is given back. -/
theorem free (h : l.LaidOut) (hg : g ∈ l.grants) :
    LaidOut { l.withdrawn g.pointer with allocator := l.allocator.free g.pointer } := by
  refine ⟨h.toWellFormed.free hg, ?_⟩
  have hclaims := (perm_cons_filter_ne h.pointers_nodup hg).filterMap Grant.claim?
  change (l.allocator.free g.pointer).bootstrap.LaysOut (l.withdrawn g.pointer).heldClaims
  unfold DomainAllocator.free
  split
  · next start hplace =>
    rw [List.filterMap_cons_some (Grant.claim?_of_place?_eq_some hplace)] at hclaims
    exact (h.layout.perm hclaims).release
  · next hplace =>
    rw [List.filterMap_cons_none (Grant.claim?_of_place?_eq_none hplace)] at hclaims
    exact h.layout.perm hclaims

/-- Claims stay laid out when the old place is given back after a new one was given and filled. -/
theorem moved_of_given {a : DomainAllocator slots}
    (h : LaidOut ⟨a, (l.given (a', q) state size).grants⟩) (hq : q ≠ .null) (hg : g ∈ l.grants) :
    (l.moved (a.free g.pointer, q) state g.pointer size).LaidOut := by
  rw [moved_eq_free hq hg h.pointers_nodup]
  exact h.free (mem_grants_given hg)

/-- What is copied fits what was asked for, so it stays within the new place. -/
theorem copy_given (h : (l.given (a', q) state size).LaidOut) (hq : q ≠ .null)
    (hfits : bytes.length ≤ size) :
    LaidOut ⟨a'.write q bytes, (l.given (a', q) state size).grants⟩ := by
  have hrounded : 0 + bytes.length ≤ rounded size := by
    rw [Nat.zero_add]
    exact hfits.trans (BootstrapBuffer.le_rounded size)
  have hshift : q.shift (0 : Nat) = q := by cases q <;> simp [Pointer.shift]
  have hfilled := h.store (mem_given hq) hrounded
  rw [hshift] at hfilled
  exact hfilled

/-- Claims stay laid out whatever becomes of what is to be moved. -/
theorem moved (h : l.LaidOut) (hg : g ∈ l.grants)
    (hmove : l.allocator.Move state g.pointer size a' q) :
    (l.moved (a', q) state g.pointer size).LaidOut := by
  cases hmove with
  | failed houtcome => exact h.given houtcome
  | claim _ houtcome hq =>
    refine ((h.given houtcome).copy_given hq ?_).moved_of_given hq hg
    rw [BootstrapBuffer.read, Contents.length_read]
    exact min_le_right _ _
  | block _ hk _ hi =>
    have hgiven := h.given (.served hk hi)
    refine LaidOut.moved_of_given ⟨hgiven.toWellFormed.modifyContents _ _, ?_⟩ (by simp) hg
    exact hgiven.layout

/-- Every change keeps claims laid out. -/
theorem of_change (h : l.LaidOut) (hchange : l.Change l') : l'.LaidOut := by
  have hordered : l'.WellFormed := h.toWellFormed.of_change hchange
  cases hchange with
  | nothing => exact h
  | given houtcome => exact h.given houtcome
  | moved hg hmove => exact h.moved hg hmove
  | freed hg => exact h.free hg
  | stored hg hfits => exact h.store hg (hfits.trans (BootstrapBuffer.le_rounded _))
  | initializing _ => exact ⟨hordered, h.layout⟩
  | refusing _ => exact ⟨hordered, h.layout⟩
  | exhausted _ _ => exact ⟨hordered, h.layout⟩
  | supplied _ => exact ⟨hordered, h.layout⟩

/-- Every event that keeps to what is held keeps claims laid out. -/
theorem stepBuffer (h : l.LaidOut) (hpermits : l.permitsBuffer e = true) :
    (l.stepBuffer e).LaidOut := by
  cases e with
  | use e => exact h.of_change (h.change hpermits)
  | claim state size =>
    change (l.given (l.allocator.claimBootstrap size) state size).LaidOut
    unfold DomainAllocator.claimBootstrap
    split
    · next hclaim => exact h.claim hclaim state
    · exact h
  | fill p start bytes =>
    obtain ⟨g, hg, hfits⟩ := List.any_eq_true.1 hpermits
    rw [Bool.and_eq_true, Bool.and_eq_true, beq_iff_eq, decide_eq_true_eq] at hfits
    obtain ⟨⟨rfl, -⟩, hfits⟩ := hfits
    exact h.store hg hfits

/-- Every run keeps claims laid out. -/
theorem runBuffer (h : l.LaidOut) {events : List BufferEvent}
    (hrun : l.runBuffer events = some l') : l'.LaidOut := by
  induction events generalizing l with
  | nil =>
    cases hrun
    exact h
  | cons e events ih =>
    rw [Ledger.runBuffer] at hrun
    split at hrun
    · next hpermits => exact ih (h.stepBuffer hpermits) hrun
    · cases hrun

/-! ## What a buffer owes to its claims -/

/-- A block of zeros that is asked for during an initialization is full of zeros. -/
theorem read_allocateZeroed (h : l.LaidOut) (hinitializing : l.allocator.initializing = true)
    {count : Nat} (hserved : l.allocator.allocateZeroed state count size = (a', q))
    (hq : q ≠ .null) (n : Nat) : a'.read q n = List.replicate n 0 := by
  unfold DomainAllocator.allocateZeroed DomainAllocator.claimBootstrap at hserved
  rw [if_pos hinitializing] at hserved
  split at hserved
  · split at hserved
    · next buffer place hclaim =>
      cases hserved
      unfold DomainAllocator.read
      rw [BootstrapBuffer.place?_buffer (BootstrapBuffer.start_lt_of_claim hclaim)]
      exact h.layout.read_of_claim hclaim n
    · cases hserved
      exact absurd rfl hq
  · cases hserved
    exact absurd rfl hq

/-- A claim that does not succeed changes nothing. -/
theorem stepBuffer_claim_eq_self
    (hfull : ¬ ∃ b start, l.allocator.bootstrap.claim size = .ok (b, start)) :
    l.stepBuffer (.claim state size) = l := by
  change l.given (l.allocator.claimBootstrap size) state size = l
  unfold DomainAllocator.claimBootstrap
  split
  · next hclaim => exact absurd ⟨_, _, hclaim⟩ hfull
  · rfl

end LaidOut

end Ledger

/-- The buffer of an allocator accounts for the claims that are held. -/
structure Ledger.AccountsForClaims (l : Ledger slots) : Prop where
  /-- The claims that were not yet released are counted. -/
  liveClaims_eq : l.allocator.bootstrap.liveClaims = l.heldClaims.length
  /-- They start at multiples of the alignment. -/
  dvd_start : ∀ c ∈ l.heldClaims, alignment ∣ c.start
  /-- They lie in the buffer. -/
  stop_le : ∀ c ∈ l.heldClaims, c.stop ≤ capacity
  /-- They are at least as long as was asked for. -/
  size_le : ∀ c ∈ l.heldClaims, c.start + c.size ≤ c.stop
  /-- No two of them have a byte in common. -/
  apart : l.heldClaims.Pairwise Claim.Apart
  /-- The free end starts at a multiple of the alignment. -/
  dvd_cursor : alignment ∣ l.allocator.bootstrap.cursor
  /-- It starts in the buffer or at its end. -/
  cursor_le : l.allocator.bootstrap.cursor ≤ capacity
  /-- It is full of zeros. -/
  zero : ∀ i, l.allocator.bootstrap.cursor ≤ i → l.allocator.bootstrap.contents i = 0
  /-- So is every claim that succeeds. -/
  read_claim : ∀ size b start, l.allocator.bootstrap.claim size = .ok (b, start) →
    b.read start (rounded size) = List.replicate (rounded size) 0
  /-- And so is what is asked for as a block of zeros during an initialization. -/
  read_allocateZeroed : ∀ state count size a' q, l.allocator.initializing = true →
    l.allocator.allocateZeroed state count size = (a', q) → q ≠ .null →
    a'.read q (count * size) = List.replicate (count * size) 0
  /-- A claim succeeds exactly when what it takes is a word and fits the free end. -/
  exists_claim_iff : ∀ size, (∃ b start, l.allocator.bootstrap.claim size = .ok (b, start)) ↔
    rounded size < wordLimit ∧ rounded size ≤ capacity - l.allocator.bootstrap.cursor
  /-- A claim that does not succeed changes nothing. -/
  claim_eq_self : ∀ state size,
    (¬ ∃ b start, l.allocator.bootstrap.claim size = .ok (b, start)) →
    l.stepBuffer (.claim state size) = l
  /-- When no claim is held, all of the buffer is full of zeros and free. -/
  released : l.heldClaims = [] →
    l.allocator.bootstrap.cursor = 0 ∧ ∀ i, l.allocator.bootstrap.contents i = 0
  /-- The release of the last claim that is held makes it so. -/
  release_eq_empty : ∀ c, l.heldClaims = [c] → l.allocator.bootstrap.release = .empty

/-- Whatever is done with a new allocator and its buffer, the buffer accounts for the claims that
are held. -/
theorem accountsForClaims_of_runBuffer (events : List BufferEvent)
    (hrun : Ledger.empty.runBuffer events = some l) : l.AccountsForClaims := by
  have h : l.LaidOut := Ledger.laidOut_empty.runBuffer hrun
  constructor
  · exact h.layout.liveClaims_eq
  · exact h.layout.dvd_start
  · exact fun c hc => (h.layout.stop_le c hc).trans h.layout.cursor_le
  · exact fun c _ => Nat.add_le_add_left (BootstrapBuffer.le_rounded c.size) c.start
  · exact h.layout.apart
  · exact h.layout.dvd_cursor
  · exact h.layout.cursor_le
  · exact h.layout.zero
  · exact fun size b start hclaim => h.layout.read_of_claim hclaim _
  · exact fun state count size a' q hinitializing hserved hq =>
      h.read_allocateZeroed hinitializing hserved hq _
  · exact fun size => BootstrapBuffer.exists_claim_iff
  · exact fun state size hfull => Ledger.LaidOut.stepBuffer_claim_eq_self hfull
  · intro hnone
    have hempty : l.allocator.bootstrap = .empty := (hnone ▸ h.layout).eq_empty
    rw [hempty]
    exact ⟨rfl, fun _ => rfl⟩
  · intro c hlast
    exact (hlast ▸ h.layout).release.eq_empty

/-- A run in which claims are filled to their ends, one of them moves within the buffer, another one
is too large, and a third one becomes a block. -/
def early : List BufferEvent :=
  [.claim ⟨5, 0⟩ 10,
    .use .beginInitialization,
    .use (.allocateZeroed ⟨5, 0⟩ 3 7),
    .fill (.buffer 0) 12 [1, 2, 3, 4],
    .use (.store (.buffer 16) 0 [9]),
    .use (.resize ⟨5, 0⟩ (.buffer 0) 40),
    .claim ⟨0, 0⟩ 2000,
    .use .finishInitialization,
    .use (.resize ⟨5, 7⟩ (.buffer 16) 8)]

/-- The claim that has moved is live in the end. -/
theorem accountsForClaims_early : ∃ l : Ledger 3,
    Ledger.empty.runBuffer early = some l ∧ l.AccountsForClaims ∧ l.heldClaims = [⟨48, 40⟩] :=
  ⟨_, rfl, accountsForClaims_of_runBuffer early rfl, rfl⟩

end HeapDomains
