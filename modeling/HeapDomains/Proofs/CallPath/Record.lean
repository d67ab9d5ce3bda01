import HeapDomains.CallPath.Record
import HeapDomains.Proofs.Except
import Mathlib.Data.List.Nodup

/-!
# Bits of a flag record

What giving out bits and adding argument bits do to a record, and how an argument mask is read.
`assign_ok` is the only place that opens `assign`: a call site keeps the bit it has, and a new one
is put at the end of the list, so bits never change. `getLsbD_argMask` reads a mask back as the set
of the bits a call site raises, each modulo the width of a word; these are the bits themselves when
words have them all (`getLsbD_argMask_of_lt`).
-/

namespace HeapDomains

/-- A bit is set in a word when the word has it at its number modulo the width. -/
theorem Word.has_eq_getLsbD {w : Word} {b : Nat} : w.has b = w.getLsbD (b % 64) := by
  have hlt : b % 64 < 64 := Nat.mod_lt b (by decide)
  have hne : BitVec.twoPow 64 (b % 64) ≠ 0 := by
    intro hzero
    have hset := congrArg (·.getLsbD (b % 64)) hzero
    simp [hlt] at hset
  rw [has, bit, width, BitVec.and_twoPow]
  cases w.getLsbD (b % 64) with
  | false => rfl
  | true => exact bne_iff_ne.2 hne

/-- A bit that words have is set when the word has it. -/
theorem Word.has_of_lt {w : Word} {b : Nat} (hb : b < 64) : w.has b = w.getLsbD b := by
  rw [has_eq_getLsbD, Nat.mod_eq_of_lt hb]

/-- No bit is set in the word zero. -/
theorem Word.has_zero {b : Nat} : Word.has 0 b = false := by
  rw [has_eq_getLsbD, BitVec.ofNat_eq_ofNat, BitVec.getLsbD_zero]

namespace FlagRecord

variable {r r' : FlagRecord} {site s : InstId} {max : UInt32} {bit b : Nat}

/-- A call site has a bit when it is in the record. -/
theorem isSome_bit? : (r.bit? s).isSome = true ↔ s ∈ r.callSites := List.isSome_idxOf?

/-- A call site stands at the position that its bit says. -/
theorem getElem?_of_bit? (h : r.bit? s = some b) : r.callSites[b]? = some s := by
  rw [bit?, List.idxOf?_eq_some_iff] at h
  obtain ⟨hlt, hget, -⟩ := h
  rw [List.getElem?_eq_getElem hlt, hget]

/-- Bits are smaller than the number of call sites. -/
theorem bit?_lt (h : r.bit? s = some b) : b < r.callSites.length :=
  (List.getElem?_eq_some_iff.1 (getElem?_of_bit? h)).1

/-- Call sites with the same bit are the same. -/
theorem bit?_inj (h : r.bit? s = some b) (h' : r.bit? site = some b) : s = site := by
  have := (getElem?_of_bit? h).symm.trans (getElem?_of_bit? h')
  exact Option.some.inj this

/-- Call sites that are put at the end leave the bits of the others as they are. -/
theorem bit?_append {later : List InstId} (h : r.bit? s = some b)
    (hr' : r'.callSites = r.callSites ++ later) : r'.bit? s = some b := by
  rw [bit?, List.idxOf?_eq_some_iff] at h ⊢
  obtain ⟨hlt, hget, hbefore⟩ := h
  simp only [hr']
  refine ⟨by rw [List.length_append]; omega, by rw [List.getElem_append_left hlt, hget], ?_⟩
  intro j hj
  rw [List.getElem_append_left (by omega)]
  exact hbefore j hj

/-- Without repetition, the call site at position `n` has bit `n`. -/
theorem bit?_getElem (hnodup : r.callSites.Nodup) {n : Nat} (hn : n < r.callSites.length) :
    r.bit? r.callSites[n] = some n := by
  rw [bit?, List.idxOf?_eq_some_iff]
  refine ⟨hn, rfl, fun j hj hsame => ?_⟩
  have := (List.Nodup.getElem_inj_iff hnodup).1 hsame
  omega

/-- Without repetition, the bit of a call site is the number it is listed with. -/
theorem bit?_of_mem_zipIdx (hnodup : r.callSites.Nodup) (h : (s, b) ∈ r.callSites.zipIdx) :
    r.bit? s = some b := by
  obtain ⟨hlt, hget⟩ := List.getElem?_eq_some_iff.1 (List.mk_mem_zipIdx_iff_getElem?.1 h)
  rw [← hget]
  exact bit?_getElem hnodup hlt

/-- Without repetition, the bits of the call sites are the numbers from zero on. -/
theorem map_bit?_callSites (hnodup : r.callSites.Nodup) :
    r.callSites.map r.bit? = (List.range r.size).map some := by
  apply List.ext_getElem
  · simp [size]
  · intro n hn hn'
    rw [List.getElem_map, List.getElem_map, List.getElem_range]
    exact bit?_getElem hnodup (by simpa using hn)

/-! ## Giving out bits -/

/-- A call site that has a bit keeps it; a new one is put at the end when a bit is left. -/
theorem assign_ok (h : r.assign site max = .ok (r', bit)) :
    r'.bit? site = some bit ∧ ((site ∈ r.callSites ∧ r' = r) ∨
      (site ∉ r.callSites ∧ r.callSites.length < max.toNat ∧
        r' = { r with callSites := r.callSites ++ [site] })) := by
  unfold assign at h
  split at h
  · rename_i old hold
    obtain ⟨rfl, rfl⟩ := Prod.mk.inj (Except.ok.inj h)
    exact ⟨hold, Or.inl ⟨isSome_bit?.1 (by rw [hold]; rfl), rfl⟩⟩
  · rename_i hnone
    have hnew : site ∉ r.callSites := fun hmem => by
      rw [← isSome_bit?, hnone] at hmem
      simp at hmem
    split at h
    · rename_i hlt
      obtain ⟨rfl, rfl⟩ := Prod.mk.inj (Except.ok.inj h)
      refine ⟨?_, Or.inr ⟨hnew, hlt, rfl⟩⟩
      rw [bit?, List.idxOf?_eq_some_iff]
      refine ⟨by simp [size], by simp [size], ?_⟩
      intro j hj hsame
      rw [List.getElem_append_left hj] at hsame
      exact hnew (hsame ▸ List.getElem_mem hj)
    · simp at h

/-- No bit is given out when the call site is new and all bits are taken. -/
theorem errorOf?_assign : errorOf? (r.assign site max) =
    if site ∉ r.callSites ∧ max.toNat ≤ r.callSites.length then
      some (.flagBitsExhausted r.function max) else none := by
  have hbit : (r.bit? site).isSome = true ↔ site ∈ r.callSites := isSome_bit?
  unfold assign size
  cases hold : r.bit? site with
  | some bit =>
    have hmem : site ∈ r.callSites := hbit.1 (by rw [hold]; rfl)
    exact (if_neg fun h => h.1 hmem).symm
  | none =>
    have hnew : site ∉ r.callSites := fun hmem => by simpa [hold] using hbit.2 hmem
    dsimp only
    split
    · rename_i hlt
      exact (if_neg fun h => absurd h.2 (by omega)).symm
    · rename_i hfull
      exact (if_pos ⟨hnew, by omega⟩).symm

/-- Giving out a bit puts the call site at the end, unless it has a bit already. -/
theorem callSites_assign_eq (h : r.assign site max = .ok (r', bit)) : r'.callSites =
    if site ∉ r.callSites then r.callSites ++ [site] else r.callSites := by
  rcases (assign_ok h).2 with ⟨hmem, rfl⟩ | ⟨hnew, -, rfl⟩
  · rw [if_neg (not_not_intro hmem)]
  · rw [if_pos hnew]

/-- Giving out a bit only adds to the end of the call sites. -/
theorem callSites_assign (h : r.assign site max = .ok (r', bit)) :
    ∃ later, r'.callSites = r.callSites ++ later := by
  rcases (assign_ok h).2 with ⟨-, rfl⟩ | ⟨-, -, rfl⟩
  · exact ⟨[], (List.append_nil _).symm⟩
  · exact ⟨[site], rfl⟩

/-- After giving out a bit the record holds the call site and those from before. -/
theorem mem_callSites_assign (h : r.assign site max = .ok (r', bit)) :
    s ∈ r'.callSites ↔ s = site ∨ s ∈ r.callSites := by
  rcases (assign_ok h).2 with ⟨hmem, rfl⟩ | ⟨-, -, rfl⟩
  · constructor
    · exact Or.inr
    · rintro (rfl | hs)
      · exact hmem
      · exact hs
  · rw [List.mem_append, List.mem_singleton, or_comm]

/-- Giving out bits never repeats a call site. -/
theorem nodup_assign (h : r.assign site max = .ok (r', bit)) (hnodup : r.callSites.Nodup) :
    r'.callSites.Nodup := by
  rcases (assign_ok h).2 with ⟨-, rfl⟩ | ⟨hnew, -, rfl⟩
  · exact hnodup
  · rw [List.nodup_append]
    refine ⟨hnodup, List.nodup_singleton _, fun x hx y hy hxy => ?_⟩
    rw [List.mem_singleton] at hy
    exact hnew (hy ▸ hxy ▸ hx)

/-- No more bits are given out than there are. -/
theorem length_assign_le (h : r.assign site max = .ok (r', bit))
    (hle : r.callSites.length ≤ max.toNat) : r'.callSites.length ≤ max.toNat := by
  rcases (assign_ok h).2 with ⟨-, rfl⟩ | ⟨-, hlt, rfl⟩
  · exact hle
  · rw [List.length_append, List.length_singleton]
    omega

/-- Giving out a bit leaves the function and the argument bits alone. -/
theorem argBits_assign (h : r.assign site max = .ok (r', bit)) :
    r'.function = r.function ∧ r'.argBits = r.argBits := by
  rcases (assign_ok h).2 with ⟨-, rfl⟩ | ⟨-, -, rfl⟩
  · exact ⟨rfl, rfl⟩
  · exact ⟨rfl, rfl⟩

/-! ## Argument bits -/

@[simp] theorem function_addArgBit : (r.addArgBit site b).function = r.function := rfl

@[simp] theorem callSites_addArgBit : (r.addArgBit site b).callSites = r.callSites := rfl

@[simp] theorem bit?_addArgBit : (r.addArgBit site b).bit? s = r.bit? s := rfl

/-- A bit is raised after adding one if it is the new one or was raised before. -/
theorem mem_argBitsOf_addArgBit {n : Nat} :
    n ∈ (r.addArgBit site b).argBitsOf s ↔ (s = site ∧ n = b) ∨ n ∈ r.argBitsOf s := by
  unfold addArgBit argBitsOf
  rw [OrderedMap.get?_modify]
  by_cases hs : s = site
  · rw [if_pos (rank_eq_iff.2 hs), Option.getD_some, OrderedSet.mem_insert, hs]
    simp
  · rw [if_neg fun h => hs (rank_eq_iff.1 h)]
    simp [hs]

/-- A mask made bit by bit has the bits it starts with and those that are put into it, each modulo
the width of a word. -/
theorem getLsbD_foldl_bit {bits : List Nat} {mask : Word} {n : Nat} :
    (bits.foldl (fun mask bit => mask ||| Word.bit bit) mask).getLsbD n = true ↔
      mask.getLsbD n = true ∨ ∃ bit ∈ bits, bit % 64 = n := by
  induction bits generalizing mask with
  | nil => simp
  | cons first rest ih =>
    have hfirst : (Word.bit first).getLsbD n = true ↔ first % 64 = n := by
      have hlt : first % 64 < 64 := Nat.mod_lt first (by decide)
      rw [Word.bit, Word.width, BitVec.getLsbD_twoPow, Bool.and_eq_true, decide_eq_true_eq,
        decide_eq_true_eq, and_iff_right hlt]
    rw [List.foldl_cons, ih, BitVec.getLsbD_or, Bool.or_eq_true, hfirst]
    simp only [List.mem_cons, exists_eq_or_imp, or_assoc]

/-- The argument mask of a call site has exactly the bits the call site raises, each modulo the
width of a word. -/
theorem getLsbD_argMask :
    (r.argMask s).getLsbD b = true ↔ ∃ bit ∈ r.argBitsOf s, bit % 64 = b := by
  rw [argMask, getLsbD_foldl_bit]
  simp [OrderedSet.mem_def]

/-- Bit 64 is the first that words do not have, and wraps around to bit 0. -/
example : ((FlagRecord.new ⟨1⟩).addArgBit ⟨5⟩ 64).argMask ⟨5⟩ = 1 := by decide

/-- The argument mask of a call site that only raises bits that words have has exactly these. -/
theorem getLsbD_argMask_of_lt (h : ∀ bit ∈ r.argBitsOf s, bit < 64) :
    (r.argMask s).getLsbD b = true ↔ b ∈ r.argBitsOf s := by
  rw [getLsbD_argMask]
  constructor
  · rintro ⟨bit, hbit, rfl⟩
    rwa [Nat.mod_eq_of_lt (h bit hbit)]
  · exact fun hb => ⟨b, hb, Nat.mod_eq_of_lt (h b hb)⟩

/-- A call site overflows when it raises a bit that words do not have. -/
theorem overflows_iff : r.overflows s = true ↔ ∃ bit ∈ r.argBitsOf s, 64 ≤ bit := by
  rw [overflows, List.any_eq_true]
  exact exists_congr fun bit => and_congr_right fun _ => decide_eq_true_iff

end FlagRecord

end HeapDomains
