import HeapDomains.Hardening
import HeapDomains.Proofs.Config
import HeapDomains.Proofs.Program

/-!
# What is hardened

A hardening asks for a step on an instruction because of the kind of the instruction and of one of
its marks (`HardeningConfig.Asks`). The steps that are taken are those that are asked for. They go
kind by kind, and steps of one kind follow the program (`Program.StepBefore`), which leaves no
choice about their order, as no two instructions share a number. An instruction is of one kind, so
that no instruction is changed twice whatever marks it carries. The masks are the one that is
configured, and it is not zero in a configuration that is accepted (`PassConfig.plansHardening`).
-/

namespace HeapDomains

/-- A hardening asks for a step on an instruction. -/
inductive HardeningConfig.Asks (c : HardeningConfig) (inst : Instruction) : HardeningStep → Prop
  /-- The address of a shadow field is masked. -/
  | maskGepResult : c.maskSmartPointerShadows = true → inst.kind = .getElementPtr →
    .smartPointerShadow ∈ inst.marks → Asks c inst (.maskGepResult inst.id c.pointerMask)
  /-- A load that only keeps a value alive is removed. -/
  | removeMarkerLoad : c.removeMarkerLoads = true → inst.kind = .load →
    .markerLoad ∈ inst.marks → Asks c inst (.removeMarkerLoad inst.id)
  /-- The pointer of a store that crosses the boundary is masked, unless it is a global. -/
  | maskStorePointer {pointer : ValueId} : c.maskUnsafeStores = true →
    inst.kind = .store pointer false → .boundaryCrossing ∈ inst.marks →
    Asks c inst (.maskStorePointer inst.id pointer c.pointerMask)

/-- The place of the kind of a step among the kinds. -/
def HardeningStep.kindRank : HardeningStep → Nat
  | maskGepResult .. => 0
  | removeMarkerLoad .. => 1
  | maskStorePointer .. => 2

namespace Program

/-- The place of the instruction with a number in a program. -/
def position (p : Program) (id : InstId) : Nat := (p.instructions.map (·.id)).idxOf id

/-- One step comes before another: it is of an earlier kind, or it is of the same kind and changes
an earlier instruction. -/
def StepBefore (p : Program) (s t : HardeningStep) : Prop :=
  s.kindRank < t.kindRank ∨
    (s.kindRank = t.kindRank ∧ p.position s.target < p.position t.target)

variable {p : Program} {s t : HardeningStep}

/-- No two steps come before each other. -/
theorem StepBefore.asymm (h : p.StepBefore s t) : ¬ p.StepBefore t s := by
  unfold StepBefore at h ⊢
  omega

/-- No step comes before itself. -/
theorem StepBefore.ne (h : p.StepBefore s t) : s ≠ t := by
  rintro rfl
  exact h.asymm h

/-- The instructions of a program stand in the order of their places. -/
theorem pairwise_position :
    p.instructions.Pairwise fun i j => p.position i.id < p.position j.id := by
  have hplace : ∀ n (hn : n < p.instructions.length), p.position p.instructions[n].id = n := by
    intro n hn
    have hget := p.admits.2.nodup.idxOf_getElem n (by rwa [List.length_map])
    rwa [List.getElem_map] at hget
  rw [List.pairwise_iff_getElem]
  intro i j hi hj hlt
  rwa [hplace i hi, hplace j hj]

/-- Steps that are found for the instructions one by one follow each other when they change those
instructions and are of one kind. -/
theorem pairwise_stepBefore_filterMap {f : Instruction → Option HardeningStep} {n : Nat}
    (hf : ∀ inst step, f inst = some step → step.target = inst.id ∧ step.kindRank = n) :
    (p.instructions.filterMap f).Pairwise p.StepBefore := by
  rw [List.pairwise_filterMap]
  refine pairwise_position.imp fun {i j} hlt s hs t ht => ?_
  obtain ⟨hs, hsKind⟩ := hf i s hs
  obtain ⟨ht, htKind⟩ := hf j t ht
  exact Or.inr ⟨hsKind.trans htKind.symm, by rwa [hs, ht]⟩

end Program

namespace HardeningStep

variable {mask : Word} {inst : Instruction} {step : HardeningStep}

/-- The address of a shadow field is masked. -/
theorem ofShadow?_eq_some_iff : ofShadow? mask inst = some step ↔ inst.kind = .getElementPtr ∧
    .smartPointerShadow ∈ inst.marks ∧ step = .maskGepResult inst.id mask := by
  rw [← Instruction.hasMark_iff]
  unfold ofShadow?
  cases inst.kind with
  | getElementPtr => simp [@eq_comm _ step]
  | _ => simp

/-- A load that only keeps a value alive is removed. -/
theorem ofMarkerLoad?_eq_some_iff : ofMarkerLoad? inst = some step ↔ inst.kind = .load ∧
    .markerLoad ∈ inst.marks ∧ step = .removeMarkerLoad inst.id := by
  rw [← Instruction.hasMark_iff]
  unfold ofMarkerLoad?
  cases inst.kind with
  | load => simp [@eq_comm _ step]
  | _ => simp

/-- The pointer of a store that crosses the boundary is masked, unless it is a global. -/
theorem ofBoundaryStore?_eq_some_iff : ofBoundaryStore? mask inst = some step ↔
    ∃ pointer, inst.kind = .store pointer false ∧ .boundaryCrossing ∈ inst.marks ∧
      step = .maskStorePointer inst.id pointer mask := by
  rw [← Instruction.hasMark_iff]
  unfold ofBoundaryStore? Instruction.crossesBoundary
  cases inst.kind with
  | store pointer pointerIsGlobal =>
    cases pointerIsGlobal with
    | true => simp
    | false => simp [@eq_comm _ step]
  | _ => simp

/-- Steps are counted kind by kind. -/
theorem countP_add_countP_add_countP (steps : List HardeningStep) :
    steps.countP isGepMask + steps.countP isLoadRemoval + steps.countP isStoreMask =
      steps.length := by
  induction steps with
  | nil => rfl
  | cons step rest ih =>
    simp only [List.countP_cons, List.length_cons]
    cases step with
    | maskStorePointer store pointer mask => simp [isGepMask, isLoadRemoval, isStoreMask]; omega
    | maskGepResult gep mask => simp [isGepMask, isLoadRemoval, isStoreMask]; omega
    | removeMarkerLoad load => simp [isGepMask, isLoadRemoval, isStoreMask]; omega

end HardeningStep

namespace HardeningConfig

variable {c : HardeningConfig} {p : Program} {inst : Instruction} {s t : HardeningStep}

/-- A step changes the instruction that it is asked for on. -/
theorem Asks.target_eq (h : c.Asks inst s) : s.target = inst.id := by
  cases h with
  | maskGepResult _ _ _ => rfl
  | removeMarkerLoad _ _ _ => rfl
  | maskStorePointer _ _ _ => rfl

/-- On an instruction one step is asked for at most, since the steps are for different kinds of
instruction. -/
theorem Asks.unique (hs : c.Asks inst s) (ht : c.Asks inst t) : s = t := by
  cases hs with
  | maskGepResult _ hkind _ =>
    cases ht with
    | maskGepResult _ _ _ => rfl
    | removeMarkerLoad _ hkind' _ => simp [hkind] at hkind'
    | maskStorePointer _ hkind' _ => simp [hkind] at hkind'
  | removeMarkerLoad _ hkind _ =>
    cases ht with
    | maskGepResult _ hkind' _ => simp [hkind] at hkind'
    | removeMarkerLoad _ _ _ => rfl
    | maskStorePointer _ hkind' _ => simp [hkind] at hkind'
  | maskStorePointer _ hkind _ =>
    cases ht with
    | maskGepResult _ hkind' _ => simp [hkind] at hkind'
    | removeMarkerLoad _ hkind' _ => simp [hkind] at hkind'
    | maskStorePointer _ hkind' _ =>
      obtain ⟨rfl, -⟩ := InstKind.store.inj (hkind.symm.trans hkind')
      rfl

/-- A mask that is asked for is the one that is configured, where something is masked. -/
theorem Asks.mask?_eq {mask : Word} (h : c.Asks inst s) (hmask : s.mask? = some mask) :
    mask = c.pointerMask ∧ c.masks = true := by
  cases h with
  | maskGepResult hon _ _ => exact ⟨(Option.some.inj hmask).symm, by simp [masks, hon]⟩
  | removeMarkerLoad _ _ _ => simp [HardeningStep.mask?] at hmask
  | maskStorePointer hon _ _ => exact ⟨(Option.some.inj hmask).symm, by simp [masks, hon]⟩

/-- What is asked for on an instruction is what one of the three scans finds for it. -/
theorem asks_iff : c.Asks inst s ↔
    (c.maskSmartPointerShadows = true ∧ HardeningStep.ofShadow? c.pointerMask inst = some s) ∨
    (c.removeMarkerLoads = true ∧ HardeningStep.ofMarkerLoad? inst = some s) ∨
    (c.maskUnsafeStores = true ∧ HardeningStep.ofBoundaryStore? c.pointerMask inst = some s) := by
  rw [HardeningStep.ofShadow?_eq_some_iff, HardeningStep.ofMarkerLoad?_eq_some_iff,
    HardeningStep.ofBoundaryStore?_eq_some_iff]
  constructor
  · intro h
    cases h with
    | maskGepResult hon hkind hmark => exact Or.inl ⟨hon, hkind, hmark, rfl⟩
    | removeMarkerLoad hon hkind hmark => exact Or.inr (Or.inl ⟨hon, hkind, hmark, rfl⟩)
    | maskStorePointer hon hkind hmark => exact Or.inr (Or.inr ⟨hon, _, hkind, hmark, rfl⟩)
  · rintro (⟨hon, hkind, hmark, rfl⟩ | ⟨hon, hkind, hmark, rfl⟩ | ⟨hon, _, hkind, hmark, rfl⟩)
    · exact .maskGepResult hon hkind hmark
    · exact .removeMarkerLoad hon hkind hmark
    · exact .maskStorePointer hon hkind hmark

/-- Some steps are those that a hardening asks for in a program, in the order in which they are
taken. -/
structure IsPlanOf (c : HardeningConfig) (p : Program) (steps : List HardeningStep) : Prop where
  /-- They are the steps that are asked for. -/
  mem_iff : ∀ step, step ∈ steps ↔ ∃ inst ∈ p.instructions, c.Asks inst step
  /-- Each comes before all that follow it. -/
  ordered : steps.Pairwise p.StepBefore

/-- A scan that is switched on finds what it finds for some instruction. -/
theorem mem_scan_iff {on : Bool} {f : Instruction → Option HardeningStep} :
    s ∈ (if on then p.instructions.filterMap f else []) ↔
      ∃ inst ∈ p.instructions, on = true ∧ f inst = some s := by
  cases on with
  | false => simp
  | true => simp

/-- A scan that is switched on finds steps that follow each other when they change the instructions
that they are found for and are of one kind. -/
theorem pairwise_scan {on : Bool} {f : Instruction → Option HardeningStep} {n : Nat}
    (hf : ∀ inst step, f inst = some step → step.target = inst.id ∧ step.kindRank = n) :
    (if on then p.instructions.filterMap f else []).Pairwise p.StepBefore := by
  cases on with
  | false => exact List.Pairwise.nil
  | true => exact Program.pairwise_stepBefore_filterMap hf

/-- The steps that are planned are those that are asked for, in their order. -/
theorem isPlanOf_steps (c : HardeningConfig) (p : Program) : c.IsPlanOf p (c.steps p) where
  mem_iff step := by
    simp only [steps, List.mem_append, mem_scan_iff, asks_iff]
    constructor
    · rintro ((⟨inst, hinst, h⟩ | ⟨inst, hinst, h⟩) | ⟨inst, hinst, h⟩)
      · exact ⟨inst, hinst, Or.inl h⟩
      · exact ⟨inst, hinst, Or.inr (Or.inl h)⟩
      · exact ⟨inst, hinst, Or.inr (Or.inr h)⟩
    · rintro ⟨inst, hinst, h | h | h⟩
      · exact Or.inl (Or.inl ⟨inst, hinst, h⟩)
      · exact Or.inl (Or.inr ⟨inst, hinst, h⟩)
      · exact Or.inr ⟨inst, hinst, h⟩
  ordered := by
    have hshadow : ∀ inst step, HardeningStep.ofShadow? c.pointerMask inst = some step →
        step.target = inst.id ∧ step.kindRank = 0 := by
      intro inst step h
      obtain ⟨-, -, rfl⟩ := HardeningStep.ofShadow?_eq_some_iff.1 h
      exact ⟨rfl, rfl⟩
    have hload : ∀ inst step, HardeningStep.ofMarkerLoad? inst = some step →
        step.target = inst.id ∧ step.kindRank = 1 := by
      intro inst step h
      obtain ⟨-, -, rfl⟩ := HardeningStep.ofMarkerLoad?_eq_some_iff.1 h
      exact ⟨rfl, rfl⟩
    have hstore : ∀ inst step, HardeningStep.ofBoundaryStore? c.pointerMask inst = some step →
        step.target = inst.id ∧ step.kindRank = 2 := by
      intro inst step h
      obtain ⟨pointer, -, -, rfl⟩ := HardeningStep.ofBoundaryStore?_eq_some_iff.1 h
      exact ⟨rfl, rfl⟩
    -- Between two scans the kinds decide.
    rw [steps, List.pairwise_append, List.pairwise_append]
    refine ⟨⟨pairwise_scan hshadow, pairwise_scan hload, ?_⟩, pairwise_scan hstore, ?_⟩
    · intro s hs t ht
      obtain ⟨i, -, -, hs⟩ := mem_scan_iff.1 hs
      obtain ⟨j, -, -, ht⟩ := mem_scan_iff.1 ht
      exact Or.inl (by rw [(hshadow i s hs).2, (hload j t ht).2]; decide)
    · intro s hs t ht
      obtain ⟨j, -, -, ht⟩ := mem_scan_iff.1 ht
      rcases List.mem_append.1 hs with hs | hs
      · obtain ⟨i, -, -, hs⟩ := mem_scan_iff.1 hs
        exact Or.inl (by rw [(hshadow i s hs).2, (hstore j t ht).2]; decide)
      · obtain ⟨i, -, -, hs⟩ := mem_scan_iff.1 hs
        exact Or.inl (by rw [(hload i s hs).2, (hstore j t ht).2]; decide)

namespace IsPlanOf

variable {steps steps' : List HardeningStep}

/-- No step is planned twice. -/
theorem nodup (h : c.IsPlanOf p steps) : steps.Nodup := h.ordered.imp fun hbefore => hbefore.ne

/-- A hardening leaves no choice about the steps and their order. -/
theorem unique (h : c.IsPlanOf p steps) (h' : c.IsPlanOf p steps') : steps = steps' := by
  have hperm : steps.Perm steps' := by
    rw [List.perm_ext_iff_of_nodup h.nodup h'.nodup]
    exact fun step => (h.mem_iff step).trans (h'.mem_iff step).symm
  exact List.Perm.eq_of_pairwise (fun s t _ _ hst hts => absurd hts hst.asymm) h.ordered h'.ordered
    hperm

/-- No instruction is changed twice. -/
theorem nodup_targets (h : c.IsPlanOf p steps) : (steps.map (·.target)).Nodup := by
  refine (List.nodup_map_iff_inj_on h.nodup).2 fun s hs t ht htarget => ?_
  obtain ⟨i, hi, hs⟩ := (h.mem_iff s).1 hs
  obtain ⟨j, hj, ht⟩ := (h.mem_iff t).1 ht
  -- Steps that change the same number are asked for on the same instruction.
  have hid : i.id = j.id := hs.target_eq.symm.trans (htarget.trans ht.target_eq)
  obtain rfl := List.inj_on_of_nodup_map p.admits.2.nodup hi hj hid
  exact hs.unique ht

end IsPlanOf

/-- Where something is masked, an accepted hardening does not mask with zero. -/
theorem pointerMask_ne_zero (h : c.offence? = none) (hmasks : c.masks = true) :
    c.pointerMask ≠ 0 := by
  intro hzero
  simp [offence?, hmasks, hzero] at h

end HardeningConfig

/-- What is hardened under a configuration in a program. -/
structure PassConfig.PlansHardening (config : PassConfig) (p : Program) : Prop where
  /-- The steps are those that the hardening asks for, in their order, and no others. -/
  isPlanOf_iff : ∀ steps, config.hardening.IsPlanOf p steps ↔ steps = config.hardening.steps p
  /-- No instruction is changed twice. -/
  nodup_targets : ((config.hardening.steps p).map (·.target)).Nodup
  /-- The steps are counted kind by kind. -/
  length_eq : (config.hardening.steps p).countP HardeningStep.isGepMask +
    (config.hardening.steps p).countP HardeningStep.isLoadRemoval +
    (config.hardening.steps p).countP HardeningStep.isStoreMask = (config.hardening.steps p).length
  /-- A configuration that is accepted masks nothing with zero. -/
  mask_ne_zero : config.validated = .ok config → ∀ step ∈ config.hardening.steps p,
    ∀ mask, step.mask? = some mask → mask ≠ 0

/-- Under every configuration each program is hardened where the configuration asks for it, each
instruction at most once, and not with a mask of zero if the configuration is accepted. -/
theorem PassConfig.plansHardening (config : PassConfig) (p : Program) :
    config.PlansHardening p where
  isPlanOf_iff steps := by
    have hplan := config.hardening.isPlanOf_steps p
    constructor
    · exact fun h => h.unique hplan
    · rintro rfl
      exact hplan
  nodup_targets := (config.hardening.isPlanOf_steps p).nodup_targets
  length_eq := HardeningStep.countP_add_countP_add_countP _
  mask_ne_zero hvalid step hstep mask hmask := by
    obtain ⟨inst, -, hasks⟩ := ((config.hardening.isPlanOf_steps p).mem_iff step).1 hstep
    obtain ⟨rfl, hmasks⟩ := hasks.mask?_eq hmask
    exact HardeningConfig.pointerMask_ne_zero (hardening_offence?_of_validated hvalid) hmasks

/-- The store comes last although the program starts with it, and a mark that is repeated or that
belongs to another kind of instruction changes nothing. -/
example : (PassConfig.ofPreset .hardened).hardening.steps ⟨⟨[⟨⟨0⟩, "main", ⟨0⟩⟩], [
    ⟨⟨1⟩, ⟨0⟩, ⟨0⟩, .store ⟨7⟩ false, [.boundaryCrossing, .markerLoad]⟩,
    ⟨⟨2⟩, ⟨0⟩, ⟨0⟩, .load, [.markerLoad, .smartPointerShadow, .markerLoad]⟩,
    ⟨⟨3⟩, ⟨0⟩, ⟨0⟩, .getElementPtr, [.smartPointerShadow]⟩], []⟩, by decide⟩ =
      [.maskGepResult ⟨3⟩ (BitVec.allOnes 64), .removeMarkerLoad ⟨2⟩,
        .maskStorePointer ⟨1⟩ ⟨7⟩ (BitVec.allOnes 64)] := by
  decide

end HeapDomains
