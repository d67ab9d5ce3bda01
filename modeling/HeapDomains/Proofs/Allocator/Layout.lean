import HeapDomains.Proofs.Allocator.Bootstrap
import Mathlib.Data.List.Pairwise
import Mathlib.Order.Lattice

/-!
# Where claims lie

A claim takes as many bytes as were asked for, rounded up to the alignment. `LaysOut` says that the
live claims of a buffer are aligned and lie apart from each other below the cursor, and that nothing
was ever stored past it. Claims, releases and stores below the cursor keep it so (`LaysOut.claim`,
`LaysOut.release`, `LaysOut.write`). A buffer that lays out no claim is as good as new
(`LaysOut.eq_empty`), and a claim that succeeds is full of zeros (`LaysOut.read_of_claim`).
-/

namespace HeapDomains

/-! ## Contents -/

namespace Contents

variable {c c' : Contents} {start count i : Nat} {bytes : List UInt8}

/-- As many bytes are read as are asked for. -/
theorem length_read (c : Contents) (start count : Nat) : (c.read start count).length = count := by
  rw [read, List.length_map, List.length_range']

/-- Two memories read the same exactly when they hold the same there. -/
theorem read_eq_read_iff : c.read start count = c'.read start count ↔
    ∀ i, start ≤ i → i < start + count → c i = c' i := by
  unfold read
  rw [List.map_inj_left]
  simp only [List.mem_range'_1, and_imp]

/-- Where there are zeros, zeros are read. -/
theorem read_eq_replicate (h : ∀ i, start ≤ i → i < start + count → c i = 0) :
    c.read start count = List.replicate count 0 := by
  calc c.read start count = zero.read start count := read_eq_read_iff.2 h
    _ = List.replicate (List.range' start count).length 0 := List.map_const'
    _ = List.replicate count 0 := by rw [List.length_range']

/-- Nothing changes outside of what is stored. -/
theorem write_eq_self (h : i < start ∨ start + bytes.length ≤ i) : c.write start bytes i = c i := by
  unfold write
  split
  · rw [List.getElem?_eq_none (by omega), Option.getD_none]
  · rfl

/-- What is stored can be read. -/
theorem read_write (c : Contents) (start : Nat) (bytes : List UInt8) :
    (c.write start bytes).read start bytes.length = bytes := by
  refine List.ext_getElem (length_read ..) fun i hlt hi => ?_
  have hplace : start + 1 * i - start = i := by omega
  unfold read at hlt ⊢
  rw [List.getElem_map, List.getElem_range', write, if_pos (Nat.le_add_right _ _), hplace,
    List.getElem?_eq_getElem hi, Option.getD_some]

end Contents

namespace BootstrapBuffer

variable {b b' : BootstrapBuffer} {start size i : Nat} {bytes : List UInt8}

/-! ## Sizes -/

/-- A claim takes whole steps. -/
theorem dvd_rounded (size : Nat) : alignment ∣ rounded size := Nat.dvd_mul_left _ _

/-- A claim takes what was asked for, and at least a byte. -/
theorem max_le_rounded (size : Nat) : max size 1 ≤ rounded size := by
  unfold rounded alignment
  omega

/-- A claim takes at least what was asked for. -/
theorem le_rounded (size : Nat) : size ≤ rounded size :=
  (le_max_left _ _).trans (max_le_rounded size)

/-! ## Claims -/

/-- A claim, by where it starts and how many bytes were asked for. -/
structure Claim where
  /-- Where it starts. -/
  start : Nat
  /-- How many bytes were asked for. -/
  size : Nat
  deriving DecidableEq

namespace Claim

variable {c c' : Claim}

/-- Where what a claim takes ends. -/
def stop (c : Claim) : Nat := c.start + rounded c.size

/-- Two claims have no byte in common. -/
def Apart (c c' : Claim) : Prop := c.stop ≤ c'.start ∨ c'.stop ≤ c.start

/-- A byte of the buffer belongs to a claim. -/
def Covers (c : Claim) (i : Nat) : Prop := c.start ≤ i ∧ i < c.stop

/-- It does not matter which claim is named first. -/
theorem Apart.symm (h : c.Apart c') : c'.Apart c := Or.symm h

instance : Std.Symm Apart := ⟨fun _ _ => Apart.symm⟩

/-- The first byte of a claim belongs to it. -/
theorem covers_start (c : Claim) : c.Covers c.start :=
  ⟨le_rfl, Nat.lt_add_of_pos_right (rounded_pos c.size)⟩

end Claim

/-- The live claims of a buffer lie apart from each other, and nothing lies past them. -/
structure LaysOut (b : BootstrapBuffer) (claims : List Claim) : Prop where
  /-- The free end starts in the buffer or at its end. -/
  cursor_le : b.cursor ≤ capacity
  /-- It starts at a multiple of the alignment. -/
  dvd_cursor : alignment ∣ b.cursor
  /-- Every live claim is counted. -/
  liveClaims_eq : b.liveClaims = claims.length
  /-- Every claim starts at a multiple of the alignment, too. -/
  dvd_start : ∀ c ∈ claims, alignment ∣ c.start
  /-- Every claim ends below the free end. -/
  stop_le : ∀ c ∈ claims, c.stop ≤ b.cursor
  /-- No two claims have a byte in common. -/
  apart : claims.Pairwise Claim.Apart
  /-- The free end is full of zeros. -/
  zero : ∀ i, b.cursor ≤ i → b.contents i = 0
  /-- Without claims all of the buffer is free. -/
  cursor_eq_zero : claims = [] → b.cursor = 0

variable {claims claims' : List Claim} {c c' : Claim}

/-- A buffer without claims lays out none. -/
theorem laysOut_empty : empty.LaysOut [] where
  cursor_le := Nat.zero_le _
  dvd_cursor := Nat.dvd_zero _
  liveClaims_eq := rfl
  dvd_start _ h := absurd h List.not_mem_nil
  stop_le _ h := absurd h List.not_mem_nil
  apart := List.Pairwise.nil
  zero _ _ := rfl
  cursor_eq_zero _ := rfl

namespace LaysOut

/-- The order of the claims does not matter. -/
theorem perm (h : b.LaysOut claims) (hperm : claims.Perm claims') : b.LaysOut claims' where
  cursor_le := h.cursor_le
  dvd_cursor := h.dvd_cursor
  liveClaims_eq := h.liveClaims_eq.trans hperm.length_eq
  dvd_start c hc := h.dvd_start c (hperm.mem_iff.2 hc)
  stop_le c hc := h.stop_le c (hperm.mem_iff.2 hc)
  apart := (hperm.pairwise_iff Claim.Apart.symm).1 h.apart
  zero := h.zero
  cursor_eq_zero hnil := h.cursor_eq_zero (List.perm_nil.1 (hnil ▸ hperm))

/-- A buffer that lays out no claim is as good as new. -/
theorem eq_empty (h : b.LaysOut []) : b = empty := by
  have hcursor : b.cursor = 0 := h.cursor_eq_zero rfl
  have hcontents : b.contents = Contents.zero :=
    funext fun i => h.zero i (hcursor ▸ Nat.zero_le i)
  calc b = ⟨b.contents, b.cursor, b.liveClaims⟩ := rfl
    _ = empty := by rw [hcontents, hcursor, h.liveClaims_eq]; rfl

/-- A claim that succeeds is laid out with the others. -/
theorem claim (h : b.LaysOut claims) (hclaim : b.claim size = .ok (b', start)) :
    b'.LaysOut (⟨start, size⟩ :: claims) := by
  obtain ⟨rfl, hfits, rfl⟩ := claim_eq_ok hclaim
  have hle := h.cursor_le
  refine ⟨?_, ?_, ?_, ?_, ?_, ?_, ?_, ?_⟩
  · change b.cursor + rounded size ≤ capacity
    omega
  · exact Nat.dvd_add h.dvd_cursor (dvd_rounded size)
  · exact congrArg (· + 1) h.liveClaims_eq
  · exact List.forall_mem_cons.2 ⟨h.dvd_cursor, h.dvd_start⟩
  · exact List.forall_mem_cons.2 ⟨le_rfl, fun c hc => (h.stop_le c hc).trans (Nat.le_add_right _ _)⟩
  · -- The others end where the new one starts, or before.
    exact List.pairwise_cons.2 ⟨fun c hc => Or.inr (h.stop_le c hc), h.apart⟩
  · exact fun i hi => h.zero i ((Nat.le_add_right _ _).trans hi)
  · exact fun hnil => absurd hnil (List.cons_ne_nil _ _)

/-- The other claims stay where they are when one is released. -/
theorem release (h : b.LaysOut (c :: claims)) : b.release.LaysOut claims := by
  have hcount : b.liveClaims - 1 = claims.length := by rw [h.liveClaims_eq]; rfl
  unfold BootstrapBuffer.release
  rw [hcount]
  split
  · next hnone =>
    rw [List.eq_nil_of_length_eq_zero hnone]
    exact laysOut_empty
  · next hsome =>
    refine ⟨h.cursor_le, h.dvd_cursor, rfl, fun c hc => h.dvd_start c (List.mem_cons_of_mem _ hc),
      fun c hc => h.stop_le c (List.mem_cons_of_mem _ hc), (List.pairwise_cons.1 h.apart).2, h.zero,
      fun hnil => ?_⟩
    rw [hnil] at hsome
    exact absurd rfl hsome

/-- Claims stay where they are when something is stored below the free end. -/
theorem write (h : b.LaysOut claims) (hstop : start + bytes.length ≤ b.cursor) :
    (b.write start bytes).LaysOut claims where
  cursor_le := h.cursor_le
  dvd_cursor := h.dvd_cursor
  liveClaims_eq := h.liveClaims_eq
  dvd_start := h.dvd_start
  stop_le := h.stop_le
  apart := h.apart
  zero i hi := (Contents.write_eq_self (Or.inr (hstop.trans hi))).trans (h.zero i hi)
  cursor_eq_zero := h.cursor_eq_zero

/-- Every claim starts in the buffer. -/
theorem start_lt (h : b.LaysOut claims) (hc : c ∈ claims) : c.start < capacity :=
  lt_of_lt_of_le c.covers_start.2 ((h.stop_le c hc).trans h.cursor_le)

/-- A claim that succeeds is full of zeros. -/
theorem read_of_claim (h : b.LaysOut claims) (hclaim : b.claim size = .ok (b', start))
    (count : Nat) : b'.read start count = List.replicate count 0 := by
  obtain ⟨rfl, -, rfl⟩ := claim_eq_ok hclaim
  exact Contents.read_eq_replicate fun i hi _ => h.zero i hi

end LaysOut

/-- From a place on, the buffer reaches to its capacity. -/
theorem remainingFrom_natCast (start : Nat) : remainingFrom start = capacity - start := by
  unfold remainingFrom
  split
  · omega
  · next hout =>
    have hge : ¬ (start : Int) < capacity := by simpa [contains] using hout
    omega

/-- A claim succeeds exactly when what it takes is a word and fits the free end. -/
theorem exists_claim_iff : (∃ b' start, b.claim size = .ok (b', start)) ↔
    rounded size < wordLimit ∧ rounded size ≤ capacity - b.cursor := by
  unfold claim
  split
  · next hlarge => simp [not_lt.2 hlarge]
  split
  · next hfull => simp [not_le.2 hfull]
  · next hword hfits => exact ⟨fun _ => ⟨not_le.1 hword, not_lt.1 hfits⟩, fun _ => ⟨_, _, rfl⟩⟩

end BootstrapBuffer

end HeapDomains
