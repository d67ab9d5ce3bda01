import HeapDomains.Proofs.CallPath.ArgBits
import HeapDomains.Proofs.CallPath.Steps
import HeapDomains.Proofs.Flag.Planner

/-!
# The shape of a function plan

A plan is made in two passes over the call sites of a record: one numbers the slots of the guarded
call sites, the other places stores and resets and counts slots on its own. The passes stay in step
(`places_planStores`): what is stored before a call is the slot that the first pass gave to the same
call site. So a plan has one shape, whatever mixture of roles the record has
(`FunctionPlan.Shaped`), and `planShapes_ofSteps` says so of every graph that can be made step by
step, together with when there is no plan.

Graphs that are made step by step may raise bits that words do not have. Where shifts wrap around,
such a bit stands for another one in a mask. Where they are checked, planning halts without a plan
(`planFlagsChecked_eq_overflow_iff`), and when it does not halt, it agrees with planning that wraps
around (`planFlagsChecked_eq`). On graphs that are built from a classification it never halts
(`planFlagsChecked_of_build`).
-/

namespace HeapDomains

/-- Whether a call site has a role. -/
def CallPathGraph.hasRole (g : CallPathGraph) (role : CallSiteRole) (s : InstId) : Bool :=
  decide (g.role s = .ok role)

namespace FunctionPlan

/-- What is placed around a call at a call site of the record `r`: nothing when it is exempt, its
mask when it is an entry, and its own slot and one reset when it is guarded. -/
inductive Places (f : FunctionPlan) (p : Program) (g : CallPathGraph) (r : FlagRecord)
    (s : InstId) : List FlagOp → Prop
  /-- Nothing is placed for an exempt call site. -/
  | exempt : g.role s = .ok .exempt → Places f p g r s []
  /-- The argument mask is stored for an entry. -/
  | entry : g.role s = .ok .entry → Places f p g r s [.storeConstant s (r.argMask s)]
  /-- The slot is stored for a guarded call site, and the flag is cleared after a plain call. -/
  | guardedPlain {slot : ScratchSlot} {site : CallSite} :
    g.role s = .ok .guarded → f.slotFor? s = some slot → p.callSite s = .ok site →
    site.flavor = .plain →
    Places f p g r s [.storeSlot s slot.id, .reset s (.afterCall s)]
  /-- The slot is stored for a guarded call site, and the flag is cleared where a normal return
  continues. -/
  | guardedInvoke {slot : ScratchSlot} {site : CallSite} {normalDest : BlockId} :
    g.role s = .ok .guarded → f.slotFor? s = some slot → p.callSite s = .ok site →
    site.flavor = .invoke normalDest →
    Places f p g r s [.storeSlot s slot.id, .reset s (.blockStart normalDest)]

/-- A plan has the shape that the record of its function asks for. -/
structure Shaped (f : FunctionPlan) (p : Program) (config : PassConfig) (g : CallPathGraph)
    (r : FlagRecord) : Prop where
  /-- It is the plan of the function of the record. -/
  function_eq : f.function = r.function
  /-- It starts with the entry block of the function. -/
  entryBlock_eq : ∃ function, p.function r.function = .ok function ∧
    f.entryBlock = function.entryBlock
  /-- The guarded call sites have slots, in bit order. -/
  map_callSite_slots : f.slots.map (·.callSite) = r.callSites.filter (g.hasRole .guarded)
  /-- Slots are numbered from zero on. -/
  map_id_slots : f.slots.map (·.id) = List.range f.slots.length
  /-- A slot has the bit and the mask of its call site. -/
  slot_spec : ∀ slot ∈ f.slots, r.bit? slot.callSite = some slot.bit ∧
    slot.argMask = r.argMask slot.callSite
  /-- The flag is loaded when there is a slot, or when unused loads are not left out. -/
  readsEntryFlag_iff : f.readsEntryFlag = true ↔ f.slots ≠ [] ∨ config.skipUnusedEntryRead = false
  /-- The flag is loaded in the entry block if at all, then every slot is computed, and then come
  the stores and resets of one call site after the other, in bit order. -/
  ops_eq : ∃ blocks, List.Forall₂ (f.Places p g r) r.callSites blocks ∧
    f.ops = (if f.readsEntryFlag then [.readEntryFlag f.entryBlock] else []) ++
      f.slots.map (fun slot => .computeSlot slot.id slot.callSite slot.bit slot.argMask) ++
      blocks.flatten

end FunctionPlan

variable {p : Program} {config : PassConfig} {g : CallPathGraph} {n : Nat} {r : FlagRecord}
  {sites : List PlannedSite} {slot : ScratchSlot} {f : FunctionPlan} {function : Function}
  {steps : List GraphStep} {plan : FlagPlan} {F : FunctionId} {items : List (InstId × Nat)}

/-! ## Slots -/

/-- The guarded call sites have slots, in the order in which they are planned. -/
theorem map_callSite_planSlots :
    (planSlots n sites).map (·.callSite) = (sites.filter (·.isGuarded)).map (·.site.id) := by
  induction sites generalizing n with
  | nil => rfl
  | cons s rest ih =>
    rw [planSlots]
    split
    · rename_i hguarded
      rw [List.map_cons, ih, List.filter_cons_of_pos hguarded, List.map_cons]
    · rename_i hguarded
      rw [ih, List.filter_cons_of_neg hguarded]

/-- A slot has the bit and the mask that its call site is planned with. -/
theorem exists_of_mem_planSlots (h : slot ∈ planSlots n sites) : ∃ s ∈ sites,
    slot.callSite = s.site.id ∧ slot.bit = s.bit ∧ slot.argMask = s.argMask := by
  induction sites generalizing n with
  | nil => simp [planSlots] at h
  | cons first rest ih =>
    rw [PlannedSite.planSlots_cons, List.mem_append] at h
    rcases h with hown | hrest
    · unfold PlannedSite.slots at hown
      split at hown
      · obtain rfl := List.mem_singleton.1 hown
        exact ⟨first, List.mem_cons_self, rfl, rfl, rfl⟩
      · simp at hown
      · simp at hown
    · obtain ⟨s, hs, hspec⟩ := ih hrest
      exact ⟨s, List.mem_cons_of_mem _ hs, hspec⟩

/-- Where no two slots belong to one call site, every slot is found under its call site. -/
theorem FunctionPlan.slotFor?_of_mem (hnodup : (f.slots.map (·.callSite)).Nodup)
    (h : slot ∈ f.slots) : f.slotFor? slot.callSite = some slot :=
  (find?_eq_some_iff_of_nodup hnodup).2 ⟨h, rfl⟩

/-! ## Stores and resets -/

/-- The stores and resets of a planned call site are those of its role, when its slot is the one
that is found under it. -/
theorem PlannedSite.places_ops {s : PlannedSite} (hsite : p.callSite s.site.id = .ok s.site)
    (hrole : g.role s.site.id = .ok s.role) (hmask : s.argMask = r.argMask s.site.id)
    (hslots : ∀ slot ∈ s.slots n, f.slotFor? slot.callSite = some slot) :
    f.Places p g r s.site.id (s.ops n) := by
  unfold slots at hslots
  unfold ops
  cases hcase : s.role with
  | exempt => exact .exempt (by rw [hrole, hcase])
  | entry =>
    rw [hmask]
    exact .entry (by rw [hrole, hcase])
  | guarded =>
    rw [hcase] at hrole hslots
    have hslot := hslots _ List.mem_cons_self
    unfold resetPoint
    cases hflavor : s.site.flavor with
    | plain => exact .guardedPlain hrole hslot hsite hflavor
    | invoke normalDest => exact .guardedInvoke hrole hslot hsite hflavor

/-- The stores and resets that are placed for planned call sites are those of one call site after
the other, each with the slot that is found under it. -/
theorem places_planStores
    (hsites : ∀ s ∈ sites, p.callSite s.site.id = .ok s.site ∧ g.role s.site.id = .ok s.role ∧
      s.argMask = r.argMask s.site.id)
    (hslots : ∀ slot ∈ planSlots n sites, f.slotFor? slot.callSite = some slot) :
    ∃ blocks, List.Forall₂ (f.Places p g r) (sites.map (·.site.id)) blocks ∧
      planStores n sites = blocks.flatten := by
  induction sites generalizing n with
  | nil => exact ⟨[], .nil, rfl⟩
  | cons s rest ih =>
    rw [PlannedSite.planSlots_cons] at hslots
    simp only [List.mem_append, or_imp, forall_and] at hslots
    obtain ⟨hsite, hrole, hmask⟩ := hsites s List.mem_cons_self
    -- Both passes count on by the slots of the first call site.
    obtain ⟨blocks, hblocks, hrest⟩ :=
      ih (fun s' hs' => hsites s' (List.mem_cons_of_mem _ hs')) hslots.2
    have hown := PlannedSite.places_ops hsite hrole hmask hslots.1
    refine ⟨s.ops n :: blocks, .cons hown hblocks, ?_⟩
    rw [PlannedSite.planStores_cons, hrest, List.flatten_cons]

/-! ## The plan of a record -/

/-- A record that lists no call site twice is planned in the shape it asks for. -/
theorem shaped_planOf (hnodup : r.callSites.Nodup)
    (hfunction : p.function r.function = .ok function)
    (hsites : planSites p g r r.callSites.zipIdx = .ok sites) :
    (planOf config function sites).Shaped p config g r := by
  obtain ⟨hids, hspec⟩ := planSites_ok hsites
  rw [List.zipIdx_map_fst] at hids
  have hguarded : ∀ s ∈ sites, s.isGuarded = g.hasRole .guarded s.site.id := by
    intro s hs
    rw [PlannedSite.isGuarded, CallPathGraph.hasRole, (hspec s hs).2.2.1]
    cases s.role with
    | entry => rfl
    | exempt => rfl
    | guarded => rfl
  have hslots : (planSlots 0 sites).map (·.callSite) = r.callSites.filter (g.hasRole .guarded) := by
    rw [map_callSite_planSlots, List.filter_congr hguarded, ← hids, List.filter_map]
    rfl
  have hfound : ∀ slot ∈ planSlots 0 sites,
      (planOf config function sites).slotFor? slot.callSite = some slot := by
    refine fun slot hslot => FunctionPlan.slotFor?_of_mem ?_ hslot
    change ((planSlots 0 sites).map (·.callSite)).Nodup
    rw [hslots]
    exact hnodup.filter _
  obtain ⟨blocks, hblocks, hstores⟩ :=
    places_planStores (fun s hs => (hspec s hs).2) hfound
  rw [hids] at hblocks
  refine {
    function_eq := ?_
    entryBlock_eq := ⟨function, hfunction, rfl⟩
    map_callSite_slots := hslots
    map_id_slots := ?_
    slot_spec := ?_
    readsEntryFlag_iff := ?_
    ops_eq := ⟨blocks, hblocks, ?_⟩ }
  · exact Program.function_id hfunction
  · exact map_id_planSlots.trans List.range_eq_range'.symm
  · intro slot hslot
    obtain ⟨s, hs, hsite, hbit, hmask⟩ := exists_of_mem_planSlots hslot
    obtain ⟨hitem, -, -, hargMask⟩ := hspec s hs
    rw [hsite, hbit, hmask, hargMask]
    exact ⟨FlagRecord.bit?_of_mem_zipIdx hnodup hitem, rfl⟩
  · change (!(planSlots 0 sites).isEmpty || !config.skipUnusedEntryRead) = true ↔
      planSlots 0 sites ≠ [] ∨ config.skipUnusedEntryRead = false
    rw [Bool.or_eq_true, Bool.not_eq_true', Bool.not_eq_true', List.isEmpty_eq_false_iff]
  · rw [← hstores]
    rfl

/-! ## Graphs that are made step by step -/

/-- What can be planned of a record. -/
structure CallPathGraph.CanPlan (g : CallPathGraph) (p : Program) (r : FlagRecord) : Prop where
  /-- Its function is declared. -/
  function_mem : r.function ∈ p.functions.map (·.id)
  /-- Its call sites are call instructions. -/
  isCallSite : ∀ s ∈ r.callSites, p.IsCallSite s
  /-- Its call sites have nodes. -/
  contains : ∀ s ∈ r.callSites, g.contains s = true

/-- A record is planned when its function is declared and its call sites are calls with nodes. -/
theorem exists_planFunction_iff :
    (∃ f, planFunction p config g r = .ok f) ↔ g.CanPlan p r := by
  constructor
  · rintro ⟨f, hf⟩
    rw [planFunction, bind_eq_ok] at hf
    obtain ⟨function, hfunction, hf⟩ := hf
    rw [bind_eq_ok] at hf
    obtain ⟨sites, hsites, -⟩ := hf
    obtain ⟨hids, hspec⟩ := planSites_ok hsites
    rw [List.zipIdx_map_fst] at hids
    have hplanned : ∀ s ∈ r.callSites, ∃ planned ∈ sites, planned.site.id = s := by
      intro s hs
      rw [← hids] at hs
      exact List.mem_map.1 hs
    refine ⟨Program.exists_function_iff.1 ⟨function, hfunction⟩, fun s hs => ?_, fun s hs => ?_⟩
    · obtain ⟨planned, hmem, rfl⟩ := hplanned s hs
      exact Program.exists_callSite_iff.1 ⟨_, (hspec planned hmem).2.1⟩
    · obtain ⟨planned, hmem, rfl⟩ := hplanned s hs
      exact CallPathGraph.contains_of_role (hspec planned hmem).2.2.1
  · rintro ⟨hfunction, hcalls, hnodes⟩
    obtain ⟨function, hfunction⟩ := Program.exists_function_iff.2 hfunction
    have hplanned : ∃ sites, planSites p g r r.callSites.zipIdx = .ok sites := by
      refine exists_planSites fun item hitem => ?_
      have hs := List.fst_mem_of_mem_zipIdx hitem
      obtain ⟨site, hsite⟩ := Program.exists_callSite_iff.2 (hcalls _ hs)
      exact ⟨site, _, hsite, CallPathGraph.role_eq_ok (hnodes _ hs)⟩
    obtain ⟨sites, hsites⟩ := hplanned
    exact ⟨planOf config function sites, by rw [planFunction, hfunction, hsites]; rfl⟩

/-- Where records are aligned, the function of a record has a plan in the shape that the record asks
for. -/
theorem shaped_of_planFlags (hg : g.RecordsAligned) (h : planFlags p config g = .ok plan)
    (hr : g.record? F = some r) : ∃ f, plan.function? F = some f ∧ f.Shaped p config g r := by
  obtain ⟨function, sites, hfunction, hf, hsites⟩ :=
    (function?_of_planFlags hg.record_function h).2 r hr
  rw [← hg.record_function hr] at hfunction
  exact ⟨_, hf, shaped_planOf (hg.record_nodup hr) hfunction hsites⟩

/-! ## Checked shifts -/

/-- Whether a mask that the plan of a record needs has a bit that words do not have: some call site
that is not exempt raises one. -/
def CallPathGraph.Overflows (g : CallPathGraph) (r : FlagRecord) : Prop :=
  ∃ s ∈ r.callSites, g.role s ≠ .ok .exempt ∧ ∃ b ∈ r.argBitsOf s, 64 ≤ b

/-- The test for bits that words do not have finds them. -/
theorem CallPathGraph.overflows_iff : g.overflows r = true ↔ g.Overflows r := by
  rw [overflows, List.any_eq_true]
  refine exists_congr fun s => and_congr_right fun _ => ?_
  rw [← FlagRecord.overflows_iff]
  split
  · rename_i hexempt
    simp [hexempt]
  all_goals
    rename_i hrole
    simp [hrole]

/-- A record that has a plan where shifts wrap around has it where they are checked, unless one of
its masks has a bit that words do not have. -/
theorem planFunctionChecked_of_ok (h : planFunction p config g r = .ok f) :
    planFunctionChecked p config g r =
      if g.overflows r then .error .overflow else .ok f := by
  rw [planFunctionChecked, h]
  rfl

/-- A record that cannot be planned is rejected before any mask is computed. -/
theorem planFunctionChecked_of_error {v : InvariantViolation}
    (h : planFunction p config g r = .error v) :
    planFunctionChecked p config g r = .error (.violation v) := by
  rw [planFunctionChecked, h]
  rfl

/-- What planning a record comes to where shifts are checked. -/
theorem planFunctionChecked_cases (p : Program) (config : PassConfig) (g : CallPathGraph)
    (r : FlagRecord) :
    (¬ g.CanPlan p r ∧ ∃ v, planFunctionChecked p config g r = .error (.violation v)) ∨
      (g.CanPlan p r ∧ g.Overflows r ∧ planFunctionChecked p config g r = .error .overflow) ∨
      (g.CanPlan p r ∧ ¬ g.Overflows r ∧ ∃ f, planFunctionChecked p config g r = .ok f) := by
  have hcan : (∃ f, planFunction p config g r = .ok f) ↔ g.CanPlan p r := exists_planFunction_iff
  rw [← hcan, ← CallPathGraph.overflows_iff]
  cases hplan : planFunction p config g r with
  | error v => exact Or.inl ⟨by simp, v, planFunctionChecked_of_error hplan⟩
  | ok f =>
    rw [planFunctionChecked_of_ok hplan]
    cases g.overflows r with
    | true => exact Or.inr (Or.inl ⟨⟨f, rfl⟩, rfl, rfl⟩)
    | false => exact Or.inr (Or.inr ⟨⟨f, rfl⟩, Bool.false_ne_true, f, rfl⟩)

/-- Where shifts are checked, a record has a plan when it can be planned and its masks have no bits
but those that words have. -/
theorem exists_planFunctionChecked_iff :
    (∃ f, planFunctionChecked p config g r = .ok f) ↔ g.CanPlan p r ∧ ¬ g.Overflows r := by
  rcases planFunctionChecked_cases p config g r with
    ⟨hcannot, v, hv⟩ | ⟨hcan, hover, hv⟩ | ⟨hcan, hfits, f, hf⟩
  · simp [hv, hcannot]
  · simp [hv, hover]
  · simp [hf, hcan, hfits]

/-- Where shifts are checked, a record halts planning when it can be planned and one of its masks
has a bit that words do not have. -/
theorem planFunctionChecked_eq_overflow_iff :
    planFunctionChecked p config g r = .error .overflow ↔ g.CanPlan p r ∧ g.Overflows r := by
  rcases planFunctionChecked_cases p config g r with
    ⟨hcannot, v, hv⟩ | ⟨hcan, hover, hv⟩ | ⟨hcan, hfits, f, hf⟩
  · simp [hv, hcannot]
  · simp [hv, hcan, hover]
  · simp [hf, hfits]

/-- Where shifts are checked, planning some records halts for a mask or gives what it gives where
they wrap around. -/
theorem planRecords_checked {records : List FlagRecord} :
    planRecords (planFunctionChecked p config g) records = .error .overflow ∨
      planRecords (planFunctionChecked p config g) records =
        (planRecords (planFunction p config g) records).mapError .violation := by
  induction records with
  | nil => exact Or.inr rfl
  | cons first rest ih =>
    rw [planRecords, planRecords]
    cases hplan : planFunction p config g first with
    | error v =>
      rw [planFunctionChecked_of_error hplan]
      exact Or.inr rfl
    | ok f =>
      rw [planFunctionChecked_of_ok hplan]
      cases g.overflows first with
      | true => exact Or.inl rfl
      | false =>
        rcases ih with hover | hsame
        · rw [hover]
          exact Or.inl rfl
        · rw [hsame]
          refine Or.inr ?_
          cases planRecords (planFunction p config g) rest with
          | error v => rfl
          | ok plans => rfl

/-- Where shifts are checked, planning a graph fails as planning its records does. -/
theorem planFlagsChecked_eq_error_iff {e : PlanStop} : planFlagsChecked p config g = .error e ↔
    planRecords (planFunctionChecked p config g) g.records.values = .error e := by
  unfold planFlagsChecked
  cases planRecords (planFunctionChecked p config g) g.records.values with
  | error e' => simp [bind, Except.bind]
  | ok plans => simp [bind, Except.bind, pure, Except.pure]

/-- Planning that does not halt for a mask gives what it gives where shifts wrap around. -/
theorem planFlagsChecked_eq (h : planFlagsChecked p config g ≠ .error .overflow) :
    planFlagsChecked p config g = (planFlags p config g).mapError .violation := by
  have hsame := planRecords_checked.resolve_left (mt planFlagsChecked_eq_error_iff.2 h)
  rw [planFlagsChecked, planFlags, hsame]
  cases planRecords (planFunction p config g) g.records.values with
  | error v => rfl
  | ok plans => rfl

/-- Where shifts are checked, planning halts at the first record of which a mask has a bit that
words do not have, unless a record before it cannot be planned. -/
theorem planFlagsChecked_eq_overflow_iff : planFlagsChecked p config g = .error .overflow ↔
    ∃ before r after, g.records.values = before ++ r :: after ∧
      (∀ r' ∈ before, g.CanPlan p r' ∧ ¬ g.Overflows r') ∧ g.CanPlan p r ∧ g.Overflows r := by
  rw [planFlagsChecked_eq_error_iff, planRecords_eq_error_iff]
  simp only [exists_planFunctionChecked_iff, planFunctionChecked_eq_overflow_iff]

/-- Where shifts wrap around, a graph that raises bit 64 is planned; where they are checked,
planning it halts. -/
example :
    let g := CallPathGraph.ofSteps
      [.ensureNode ⟨1⟩ ⟨0⟩, .assign ⟨0⟩ ⟨1⟩ 1, .addArgBit ⟨0⟩ ⟨1⟩ 64]
    (planFlags relay (.ofPreset .precise) g).map (·.slotCount) = .ok 1 ∧
      planFlagsChecked relay (.ofPreset .precise) g = .error .overflow := by
  decide

/-- Planning a graph that is built never halts for a mask: it raises flag bits only, and words have
them all. -/
theorem planFlagsChecked_of_build {c : Classification} (hvalid : config.validated = .ok config)
    (h : CallPathGraph.build p config c = .ok g) :
    planFlagsChecked p config g = (planFlags p config g).mapError .violation := by
  refine planFlagsChecked_eq fun hover => ?_
  obtain ⟨before, r, after, hrecords, -, -, s, -, -, b, hb, hle⟩ :=
    planFlagsChecked_eq_overflow_iff.1 hover
  have hr : r ∈ g.records.values := hrecords ▸ by simp
  obtain ⟨F, hF⟩ := OrderedMap.mem_values_iff.1 hr
  obtain ⟨site, hsite, -, hraised⟩ := CallPathGraph.argBits_of_mem_argBitsOf h hF hb
  have hlt := CallPathGraph.argBit_lt hvalid h hsite hraised
  have hmax := (PassConfig.maxFlagBits_of_validated hvalid).2
  omega

/-! ## The plans of a graph -/

/-- What planning makes of a graph. -/
structure CallPathGraph.PlanShapes (g : CallPathGraph) (p : Program) (config : PassConfig) :
    Prop where
  /-- Planning fails when the function of some record is not declared, or some call site in a record
  is no call instruction or has no node. -/
  fails_iff : (∃ violation, planFlags p config g = .error violation) ↔
    ∃ F r, g.record? F = some r ∧ (F ∉ p.functions.map (·.id) ∨
      ∃ s ∈ r.callSites, ¬ p.IsCallSite s ∨ g.contains s ≠ true)
  /-- Functions without a record have no plan. -/
  function?_eq_none : ∀ plan, planFlags p config g = .ok plan →
    ∀ F, g.record? F = none → plan.function? F = none
  /-- The function of a record has a plan in the shape that the record asks for. -/
  shaped : ∀ plan, planFlags p config g = .ok plan →
    ∀ F r, g.record? F = some r → ∃ f, plan.function? F = some f ∧ f.Shaped p config g r
  /-- Where shifts are checked, planning halts at the first record of which a mask has a bit that
  words do not have, unless a record before it cannot be planned. -/
  overflow_iff : planFlagsChecked p config g = .error .overflow ↔
    ∃ before r after, g.records.values = before ++ r :: after ∧
      (∀ r' ∈ before, g.CanPlan p r' ∧ ¬ g.Overflows r') ∧ g.CanPlan p r ∧ g.Overflows r
  /-- When it does not halt, it gives the same plan as where they wrap around, or fails in the same
  way. -/
  checked_eq : planFlagsChecked p config g ≠ .error .overflow →
    planFlagsChecked p config g = (planFlags p config g).mapError .violation

/-- A graph has a plan when all its records can be planned. -/
theorem exists_planFlags_iff (hg : g.RecordsAligned) :
    (∃ plan, planFlags p config g = .ok plan) ↔ ∀ F r, g.record? F = some r → g.CanPlan p r := by
  constructor
  · rintro ⟨plan, hplan⟩ F r hr
    obtain ⟨function, sites, hfunction, -, hsites⟩ :=
      (function?_of_planFlags hg.record_function hplan).2 r hr
    rw [← hg.record_function hr] at hfunction
    have hplanned : planFunction p config g r = .ok (planOf config function sites) := by
      rw [planFunction, hfunction, hsites]
      rfl
    exact exists_planFunction_iff.1 ⟨_, hplanned⟩
  · intro hcan
    have hplans : ∃ plans,
        planRecords (planFunction p config g) g.records.values = .ok plans := by
      refine exists_planRecords_iff.2 fun r hr => ?_
      obtain ⟨F, hF⟩ := OrderedMap.mem_values_iff.1 hr
      exact exists_planFunction_iff.2 (hcan F r hF)
    obtain ⟨plans, hplans⟩ := hplans
    exact ⟨⟨config.flagSymbol, config.typeTagSymbol, plans⟩, by rw [planFlags, hplans]; rfl⟩

/-- A graph has no plan when some record cannot be planned. -/
theorem exists_planFlags_eq_error_iff (hg : g.RecordsAligned) :
    (∃ violation, planFlags p config g = .error violation) ↔
      ∃ F r, g.record? F = some r ∧ ¬ g.CanPlan p r := by
  have hfails : (∃ violation, planFlags p config g = .error violation) ↔
      ¬ ∃ plan, planFlags p config g = .ok plan := by
    cases planFlags p config g with
    | error violation => simp
    | ok plan => simp
  rw [hfails, exists_planFlags_iff hg]
  push Not
  rfl

/-- A record cannot be planned when its function is not declared, or some call site in it is no call
instruction or has no node. -/
theorem CallPathGraph.not_canPlan_iff : ¬ g.CanPlan p r ↔ r.function ∉ p.functions.map (·.id) ∨
    ∃ s ∈ r.callSites, ¬ p.IsCallSite s ∨ g.contains s ≠ true := by
  constructor
  · intro hcannot
    by_contra hfits
    push Not at hfits
    exact hcannot ⟨hfits.1, fun s hs => (hfits.2 s hs).1, fun s hs => (hfits.2 s hs).2⟩
  · rintro (hunknown | ⟨s, hs, hnone | hnone⟩) hcan
    · exact hunknown hcan.function_mem
    · exact hnone (hcan.isCallSite s hs)
    · exact hnone (hcan.contains s hs)

/-- Whatever steps have made a graph, planning gives every record a plan of its shape, or fails
because of what some record says; where shifts are checked, it does the same or halts. -/
theorem planShapes_ofSteps : (CallPathGraph.ofSteps steps).PlanShapes p config := by
  have hg : (CallPathGraph.ofSteps steps).RecordsAligned := CallPathGraph.recordsAligned_ofSteps
  refine ⟨?_, fun plan hplan F => (function?_of_planFlags hg.record_function hplan).1,
    fun plan hplan F r hr => shaped_of_planFlags hg hplan hr, planFlagsChecked_eq_overflow_iff,
    planFlagsChecked_eq⟩
  rw [exists_planFlags_eq_error_iff hg]
  refine exists_congr fun F => exists_congr fun r => and_congr_right fun hr => ?_
  rw [CallPathGraph.not_canPlan_iff, hg.record_function hr]

end HeapDomains
