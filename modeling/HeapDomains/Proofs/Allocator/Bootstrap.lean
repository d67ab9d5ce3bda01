import HeapDomains.Allocator.Bootstrap
import Mathlib.Data.List.Perm.Basic

/-!
# The claims of a bootstrap buffer

A buffer holds its live claims below its cursor and counts them, so a new claim starts where none
does (`Holds.claim`), and the release of the last one may clear it (`Holds.release`).
-/

namespace HeapDomains.BootstrapBuffer

variable {b b' : BootstrapBuffer} {p : Pointer} {start size : Nat} {starts starts' : List Nat}

/-- The live claims of a buffer, by where they start, in some order. -/
structure Holds (b : BootstrapBuffer) (starts : List Nat) : Prop where
  /-- The free end starts in the buffer or at its end. -/
  cursor_le : b.cursor ≤ capacity
  /-- Every live claim is counted. -/
  liveClaims_eq : b.liveClaims = starts.length
  /-- Every live claim starts below the free end. -/
  lt_cursor : ∀ start ∈ starts, start < b.cursor

/-- A buffer without claims holds none. -/
theorem holds_empty : empty.Holds [] :=
  ⟨Nat.zero_le _, rfl, fun _ h => absurd h List.not_mem_nil⟩

/-- The order of the claims does not matter. -/
theorem Holds.perm (h : b.Holds starts) (hperm : starts.Perm starts') : b.Holds starts' :=
  ⟨h.cursor_le, h.liveClaims_eq.trans hperm.length_eq,
    fun start hstart => h.lt_cursor start (hperm.mem_iff.2 hstart)⟩

/-- Only the place of a pointer into the buffer is a place in it. -/
theorem place?_eq_some (h : place? p = some start) : p = .buffer start ∧ start < capacity := by
  unfold place? at h
  split at h
  · next offset =>
    split at h
    · next hin =>
      cases h
      simp only [contains, Bool.and_eq_true, decide_eq_true_eq] at hin
      refine ⟨?_, by omega⟩
      rw [Int.toNat_of_nonneg hin.1]
    · cases h
  · cases h

/-- A place in the buffer is the place of its pointer. -/
theorem place?_buffer (h : start < capacity) : place? (.buffer start) = some start := by
  have hin : contains start = true := by
    simp only [contains, Bool.and_eq_true, decide_eq_true_eq]
    omega
  rw [place?, if_pos hin, Int.toNat_natCast]

/-- Every claim takes some bytes. -/
theorem rounded_pos (size : Nat) : 0 < rounded size := by
  have hunit : alignment ≤ max size 1 + (alignment - 1) := by unfold alignment; omega
  exact Nat.mul_pos (Nat.div_pos hunit (by decide)) (by decide)

/-- A claim that succeeds starts at the free end, and fits there. -/
theorem claim_eq_ok (h : b.claim size = .ok (b', start)) :
    start = b.cursor ∧ rounded size ≤ capacity - b.cursor ∧
      b' = { b with cursor := b.cursor + rounded size, liveClaims := b.liveClaims + 1 } := by
  unfold claim at h
  split at h
  · cases h
  split at h
  · cases h
  · next hfits =>
    cases h
    exact ⟨rfl, Nat.not_lt.1 hfits, rfl⟩

/-- A claim that succeeds starts in the buffer. -/
theorem start_lt_of_claim (h : b.claim size = .ok (b', start)) : start < capacity := by
  obtain ⟨rfl, hfits, -⟩ := claim_eq_ok h
  have hpos := rounded_pos size
  omega

/-- A claim that succeeds is held with the others, and none of them starts where it does. -/
theorem Holds.claim (hb : b.Holds starts) (h : b.claim size = .ok (b', start)) :
    start ∉ starts ∧ b'.Holds (start :: starts) := by
  obtain ⟨rfl, hfits, rfl⟩ := claim_eq_ok h
  have hpos := rounded_pos size
  refine ⟨fun hmem => Nat.lt_irrefl _ (hb.lt_cursor _ hmem), ?_, ?_, ?_⟩
  · change b.cursor + rounded size ≤ capacity
    have hle := hb.cursor_le
    omega
  · exact congrArg (· + 1) hb.liveClaims_eq
  · intro other hother
    change other < b.cursor + rounded size
    rcases List.mem_cons.1 hother with rfl | hother
    · omega
    · exact Nat.lt_add_right _ (hb.lt_cursor other hother)

/-- The other claims are held when one is released. -/
theorem Holds.release (hb : b.Holds (start :: starts)) : b.release.Holds starts := by
  have hcount : b.liveClaims - 1 = starts.length := by rw [hb.liveClaims_eq]; rfl
  unfold BootstrapBuffer.release
  rw [hcount]
  split
  · next hnone =>
    rw [List.eq_nil_of_length_eq_zero hnone]
    exact holds_empty
  · exact ⟨hb.cursor_le, rfl, fun other h => hb.lt_cursor other (List.mem_cons_of_mem _ h)⟩

/-- What is stored is no claim. -/
theorem Holds.write (hb : b.Holds starts) (start : Nat) (bytes : List UInt8) :
    (b.write start bytes).Holds starts :=
  ⟨hb.cursor_le, hb.liveClaims_eq, hb.lt_cursor⟩

end HeapDomains.BootstrapBuffer
