import HeapDomains.Config.Basic

/-!
# Accepted configurations

What the test that a configuration has to pass promises to a run.
-/

namespace HeapDomains

namespace PassConfig

variable {config : PassConfig}

/-- A configuration that is accepted has no offence. -/
theorem offence?_of_validated (h : config.validated = .ok config) : config.offence? = none := by
  unfold validated at h
  split at h
  · simp at h
  · assumption

/-- An accepted number of flag bits is at least one, and fits into the flag register. -/
theorem maxFlagBits_of_validated (h : config.validated = .ok config) :
    0 < config.maxFlagBits.toNat ∧ config.maxFlagBits.toNat ≤ 64 := by
  have hnone := offence?_of_validated h
  unfold offence? at hnone
  split at hnone
  · simp at hnone
  · rename_i hbounds
    rw [not_or, UInt32.lt_iff_toNat_lt, ← UInt32.toNat_inj] at hbounds
    obtain ⟨hzero, hlarge⟩ := hbounds
    have h64 : flagRegisterBits.toNat = 64 := rfl
    have h0 : (0 : UInt32).toNat = 0 := rfl
    omega

/-- The hardening of an accepted configuration is accepted. -/
theorem hardening_offence?_of_validated (h : config.validated = .ok config) :
    config.hardening.offence? = none := by
  have hnone := offence?_of_validated h
  unfold offence? at hnone
  -- The hardening is tested last, after four tests that have passed.
  iterate 4 (split at hnone; · simp at hnone)
  exact hnone

end PassConfig

end HeapDomains
