import HeapDomains.Proofs.Keyed
import HeapDomains.Proofs.Program.Acceptance

/-!
# Lookups in a program

What the parts of a program promise to a lookup: no two entities share a number, so a function or an
instruction is found when it is the one that has the number, a call site when the instruction is a
call, and the function it belongs to is declared. The lookups that fail say which of these is
missing.
-/

namespace HeapDomains

/-- A call site seen from its instruction has the number and the function of the instruction. -/
theorem Instruction.callSite?_eq_some {inst : Instruction} {site : CallSite}
    (h : inst.callSite? = some site) : site.id = inst.id ∧ site.function = inst.function := by
  unfold callSite? at h
  split at h
  · obtain rfl := Option.some.inj h
    exact ⟨rfl, rfl⟩
  · simp at h

/-- The call instructions are those that are call sites. -/
theorem Instruction.isSome_callSite? {inst : Instruction} :
    inst.callSite?.isSome = true ↔ inst.isCall = true := by
  unfold callSite? isCall
  cases inst.kind with
  | call target flavor => simp
  | alloca => simp
  | store pointer pointerIsGlobal => simp
  | getElementPtr => simp
  | load => simp
  | other => simp

/-- An instruction carries the marks that are listed for it. -/
theorem Instruction.hasMark_iff {inst : Instruction} {mark : Mark} :
    inst.hasMark mark = true ↔ mark ∈ inst.marks := by
  rw [hasMark, List.contains_iff_mem]

/-- One kind of instruction makes stack slots. -/
theorem Instruction.isAlloca_iff {inst : Instruction} :
    inst.isAlloca = true ↔ inst.kind = .alloca := by
  unfold isAlloca
  cases inst.kind with
  | alloca => simp
  | call target flavor => simp
  | store pointer pointerIsGlobal => simp
  | getElementPtr => simp
  | load => simp
  | other => simp

namespace Program

/-- An instruction has a number. -/
def IsInstruction (p : Program) (id : InstId) : Prop := ∃ inst ∈ p.instructions, inst.id = id

/-- A call instruction has a number. -/
def IsCallSite (p : Program) (id : InstId) : Prop :=
  ∃ inst ∈ p.instructions, inst.id = id ∧ inst.isCall = true

/-- Why a number is not that of a call. -/
inductive CallOffence (p : Program) (id : InstId) : InvariantViolation → Prop
  /-- No instruction has it. -/
  | unknown : ¬ p.IsInstruction id → CallOffence p id (.unknownInstruction id)
  /-- The instruction that has it is not a call. -/
  | notACall : p.IsInstruction id → ¬ p.IsCallSite id → CallOffence p id (.notACallSite id)

variable {p : Program} {id : InstId} {site : CallSite} {violation : InvariantViolation}

/-- The functions and the instructions of a program make no trouble. -/
theorem admits : (p.functions.map (·.id)).Nodup ∧ p.Admits p.instructions :=
  ProgramParts.offence?_eq_none_iff.1 p.consistent

/-- What is found under a number is the instruction that has it. -/
theorem findInstruction?_eq_some_iff {inst : Instruction} :
    p.findInstruction? id = some inst ↔ inst ∈ p.instructions ∧ inst.id = id :=
  find?_eq_some_iff_of_nodup p.admits.2.nodup

/-- Every instruction is found under its number. -/
theorem findInstruction?_of_mem {inst : Instruction} (h : inst ∈ p.instructions) :
    p.findInstruction? inst.id = some inst :=
  findInstruction?_eq_some_iff.2 ⟨h, rfl⟩

/-- No instruction is found under a number that none has. -/
theorem findInstruction?_eq_none_iff :
    p.findInstruction? id = none ↔ ∀ inst ∈ p.instructions, inst.id ≠ id := by
  simp [findInstruction?]

/-- An instruction that is found under a number is the one that has it. -/
theorem instruction_eq_ok_iff {inst : Instruction} :
    p.instruction id = .ok inst ↔ inst ∈ p.instructions ∧ inst.id = id := by
  rw [← findInstruction?_eq_some_iff, instruction]
  cases p.findInstruction? id with
  | none => simp
  | some found => simp

/-- An instruction is found under a number when some instruction has it. -/
theorem exists_instruction_iff : (∃ inst, p.instruction id = .ok inst) ↔ p.IsInstruction id := by
  simp only [instruction_eq_ok_iff, IsInstruction]

/-- No instruction has a number when all have others. -/
theorem not_isInstruction_iff : ¬ p.IsInstruction id ↔ ∀ inst ∈ p.instructions, inst.id ≠ id := by
  simp [IsInstruction]

/-- The lookup of an instruction fails when no instruction has the number. -/
theorem instruction_eq_error_iff :
    p.instruction id = .error violation ↔ violation = .unknownInstruction id ∧
      ¬ p.IsInstruction id := by
  rw [← exists_instruction_iff]
  unfold instruction
  cases p.findInstruction? id with
  | some inst => simp
  | none => simp [eq_comm]

/-- A call site that is found is a call instruction of the program, seen as a call site. -/
theorem callSite_eq_ok (h : p.callSite id = .ok site) :
    ∃ inst ∈ p.instructions, inst.id = id ∧ inst.callSite? = some site := by
  unfold callSite at h
  split at h
  · simp at h
  · rename_i inst hinst
    have hid : inst.id = id := by simpa using List.find?_some hinst
    split at h
    · rename_i found hfound
      obtain rfl : found = site := Except.ok.inj h
      exact ⟨inst, List.mem_of_find?_eq_some hinst, hid, hfound⟩
    · simp at h

/-- A call site is found under the number of a call and has what the call has. -/
theorem callSite_eq_ok_iff : p.callSite id = .ok site ↔
    ∃ inst target flavor, (inst ∈ p.instructions ∧ inst.id = id) ∧
      inst.kind = .call target flavor ∧
      site = ⟨id, inst.function, inst.block, target, flavor⟩ := by
  constructor
  · intro h
    obtain ⟨inst, hinst, hid, hsite⟩ := callSite_eq_ok h
    unfold Instruction.callSite? at hsite
    split at hsite
    · rename_i target flavor hkind
      exact ⟨inst, target, flavor, ⟨hinst, hid⟩, hkind, by rw [← hid, Option.some.inj hsite]⟩
    · simp at hsite
  · rintro ⟨inst, target, flavor, ⟨hinst, rfl⟩, hkind, rfl⟩
    rw [callSite, findInstruction?_of_mem hinst]
    simp only [Instruction.callSite?, hkind]

/-- A call site is found under a number when some call has it. -/
theorem exists_callSite_iff : (∃ site, p.callSite id = .ok site) ↔ p.IsCallSite id := by
  constructor
  · rintro ⟨site, h⟩
    obtain ⟨inst, hinst, hid, hsite⟩ := callSite_eq_ok h
    exact ⟨inst, hinst, hid, Instruction.isSome_callSite?.1 (by rw [hsite]; rfl)⟩
  · rintro ⟨inst, hinst, rfl, hcall⟩
    obtain ⟨site, hsite⟩ := Option.isSome_iff_exists.1 (Instruction.isSome_callSite?.2 hcall)
    exact ⟨site, by rw [callSite, findInstruction?_of_mem hinst]; simp only [hsite]⟩

/-- A call is an instruction. -/
theorem IsCallSite.isInstruction (h : p.IsCallSite id) : p.IsInstruction id := by
  obtain ⟨inst, hinst, hid, -⟩ := h
  exact ⟨inst, hinst, hid⟩

/-- A number with an offence is not that of a call. -/
theorem CallOffence.not_isCallSite (h : p.CallOffence id violation) : ¬ p.IsCallSite id := by
  cases h with
  | unknown hunknown => exact fun hcall => hunknown hcall.isInstruction
  | notACall _ hnone => exact hnone

/-- A number has one offence at most. -/
theorem CallOffence.unique {other : InvariantViolation} (h : p.CallOffence id violation)
    (h' : p.CallOffence id other) : violation = other := by
  cases h with
  | unknown hunknown =>
    cases h' with
    | unknown _ => rfl
    | notACall hknown _ => exact absurd hknown hunknown
  | notACall hknown _ =>
    cases h' with
    | unknown hunknown => exact absurd hknown hunknown
    | notACall _ _ => rfl

/-- The lookup of a call site fails when no call has the number. -/
theorem callSite_eq_error_iff : p.callSite id = .error violation ↔ p.CallOffence id violation := by
  have hoffence : ∀ v, p.callSite id = .error v → p.CallOffence id v := by
    intro v h
    have hnone : ¬ p.IsCallSite id := by
      rw [← exists_callSite_iff, h]
      simp
    unfold callSite at h
    split at h
    · rename_i hfound
      obtain rfl := Except.error.inj h
      refine .unknown (exists_instruction_iff.not.1 ?_)
      rw [instruction, hfound]
      simp
    · rename_i inst hfound
      split at h
      · simp at h
      · obtain rfl := Except.error.inj h
        exact .notACall (exists_instruction_iff.1 ⟨inst, by rw [instruction, hfound]⟩) hnone
  refine ⟨hoffence violation, fun h => ?_⟩
  -- The lookup fails with an offence of the number, of which there is only one.
  cases hlookup : p.callSite id with
  | ok site => exact absurd (exists_callSite_iff.1 ⟨site, hlookup⟩) h.not_isCallSite
  | error other => rw [h.unique (hoffence other hlookup)]

/-- The lookup of a call site fails on a number of no instruction and on one of an instruction that
is not a call. -/
theorem callSite_eq_error_iff_or : p.callSite id = .error violation ↔
    (violation = .unknownInstruction id ∧ ∀ inst ∈ p.instructions, inst.id ≠ id) ∨
    (violation = .notACallSite id ∧ ∃ inst, (inst ∈ p.instructions ∧ inst.id = id) ∧
      ∀ target flavor, inst.kind ≠ .call target flavor) := by
  rw [callSite_eq_error_iff]
  constructor
  · intro h
    cases h with
    | unknown hunknown => exact .inl ⟨rfl, not_isInstruction_iff.1 hunknown⟩
    | notACall hknown hnone =>
      obtain ⟨inst, hinst, hid⟩ := hknown
      exact .inr ⟨rfl, inst, ⟨hinst, hid⟩, fun target flavor hkind =>
        hnone ⟨inst, hinst, hid, by rw [Instruction.isCall, hkind]⟩⟩
  · rintro (⟨rfl, hnone⟩ | ⟨rfl, inst, hinst, hkind⟩)
    · exact .unknown (not_isInstruction_iff.2 hnone)
    · refine .notACall ⟨inst, hinst⟩ ?_
      rintro ⟨other, hother, hid, hcall⟩
      -- A call with the number would be the instruction that has it.
      have hsame := findInstruction?_eq_some_iff.2 ⟨hother, hid⟩
      rw [findInstruction?_eq_some_iff.2 hinst] at hsame
      obtain rfl := Option.some.inj hsame
      unfold Instruction.isCall at hcall
      split at hcall
      · rename_i target flavor hcallKind
        exact hkind target flavor hcallKind
      · simp at hcall

/-- A call site is found under its own number. -/
theorem callSite_id (h : p.callSite id = .ok site) : site.id = id := by
  obtain ⟨inst, -, hid, hsite⟩ := callSite_eq_ok h
  rw [(Instruction.callSite?_eq_some hsite).1, hid]

/-- A call site that is found can be found again under its number. -/
theorem callSite_self (h : p.callSite id = .ok site) : p.callSite site.id = .ok site := by
  rw [callSite_id h]
  exact h

/-- The function of an instruction is declared. -/
theorem function_mem_of_mem {inst : Instruction} (h : inst ∈ p.instructions) :
    inst.function ∈ p.functions.map (·.id) :=
  p.admits.2.declared inst h

/-- What is found under a number is the function that has it. -/
theorem findFunction?_eq_some_iff {F : FunctionId} {f : Function} :
    p.findFunction? F = some f ↔ f ∈ p.functions ∧ f.id = F :=
  find?_eq_some_iff_of_nodup p.admits.1

/-- A function that is found under a number is the one that has it. -/
theorem function_eq_ok_iff {F : FunctionId} {f : Function} :
    p.function F = .ok f ↔ f ∈ p.functions ∧ f.id = F := by
  rw [← findFunction?_eq_some_iff, function]
  cases p.findFunction? F with
  | none => simp
  | some found => simp

/-- A function that is found has the number it is looked up by. -/
theorem function_id {F : FunctionId} {f : Function} (h : p.function F = .ok f) : f.id = F :=
  (function_eq_ok_iff.1 h).2

/-- A function is found under a number when it is declared with it. -/
theorem exists_function_iff {F : FunctionId} :
    (∃ f, p.function F = .ok f) ↔ F ∈ p.functions.map (·.id) := by
  simp only [function_eq_ok_iff, List.mem_map]

/-- The lookup of a function fails when no function has the number. -/
theorem function_eq_error_iff {F : FunctionId} :
    p.function F = .error violation ↔ violation = .unknownFunction F ∧
      F ∉ p.functions.map (·.id) := by
  rw [← exists_function_iff]
  unfold function
  cases p.findFunction? F with
  | some f => simp
  | none => simp [eq_comm]

/-- The function that a call is made from is declared. -/
theorem function_of_callSite (h : p.callSite id = .ok site) :
    ∃ f, p.function site.function = .ok f := by
  obtain ⟨inst, hinst, -, hsite⟩ := callSite_eq_ok h
  rw [(Instruction.callSite?_eq_some hsite).2]
  exact exists_function_iff.2 (function_mem_of_mem hinst)

end Program

end HeapDomains
