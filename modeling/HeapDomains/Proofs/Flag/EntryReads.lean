import HeapDomains.Proofs.Flag.Frames

/-!
# Loads of the flag that nothing depends on

A function without slots computes nothing from the flag, so its entry block need not load it. The
settings say whether such loads are left out. Plans under different settings are made of the same
call sites (`PlannedAlike`), so they agree in all but these loads (`planOf_eq_withoutUnusedRead`):
in the slots that a frame computes, and in what is done before and after a call
(`FlagPlan.AgreesWith`). What was loaded is not looked at again, so executions under both plans go
in step with the same flag (`FlagState.InStep`), and `leavesOutUnusedReads_of_planFlags` says so of
every graph that can be planned.
-/

namespace HeapDomains

namespace FlagOp

/-- Whether an operation loads the flag. -/
def isReadEntryFlag : FlagOp → Bool
  | readEntryFlag _ => true
  | computeSlot .. | storeSlot .. | reset .. | storeConstant .. => false

end FlagOp

/-- The plan of a function without the load of the flag, unless some slot depends on it. -/
def FunctionPlan.withoutUnusedRead (f : FunctionPlan) : FunctionPlan :=
  if f.slots = [] then
    { f with
      readsEntryFlag := false
      ops := f.ops.filter fun op => !op.isReadEntryFlag }
  else f

/-- The settings under which every function with a plan loads the flag. -/
def PassConfig.keepingReads (config : PassConfig) : PassConfig :=
  { config with skipUnusedEntryRead := false }

/-- The settings under which loads are left out that no slot depends on. -/
def PassConfig.skippingReads (config : PassConfig) : PassConfig :=
  { config with skipUnusedEntryRead := true }

variable {p : Program} {config config' : PassConfig} {g : CallPathGraph} {r : FlagRecord}
  {function : Function} {sites : List PlannedSite} {f : FunctionPlan} {l l' : FlagLocals}
  {plan plan' : FlagPlan} {s s' t : FlagState} {F : FunctionId} {id : InstId} {flag : Word} {n : Nat}

/-! ## Plans under other settings -/

/-- The plans of some functions are made of the same call sites under two settings. -/
def PlannedAlike (config config' : PassConfig) (plans plans' : FunctionId → Option FunctionPlan) :
    Prop :=
  ∀ F, (plans F = none ∧ plans' F = none) ∨ ∃ function sites,
    plans F = some (planOf config function sites) ∧ plans' F = some (planOf config' function sites)

/-- A record that is planned is planned from its call sites under any settings. -/
theorem planFunction_ok (h : planFunction p config g r = .ok f) : ∃ function sites,
    f = planOf config function sites ∧
      ∀ config', planFunction p config' g r = .ok (planOf config' function sites) := by
  rw [planFunction, bind_eq_ok] at h
  obtain ⟨function, hfunction, h⟩ := h
  rw [bind_eq_ok] at h
  obtain ⟨sites, hsites, h⟩ := h
  refine ⟨function, sites, (Except.ok.inj h).symm, fun config' => ?_⟩
  rw [planFunction, hfunction, hsites]
  rfl

/-- Records that are planned are planned under other settings, for the same functions. -/
theorem exists_planRecords_alike (config' : PassConfig) {records : List FlagRecord}
    {plans : OrderedMap FunctionId FunctionPlan}
    (h : planRecords (planFunction p config g) records = .ok plans) :
    ∃ plans', planRecords (planFunction p config' g) records = .ok plans' ∧
      PlannedAlike config config' plans.get? plans'.get? := by
  induction records generalizing plans with
  | nil =>
    obtain rfl := Except.ok.inj h
    exact ⟨_, rfl, fun F => Or.inl ⟨rfl, rfl⟩⟩
  | cons first rest ih =>
    rw [planRecords, bind_eq_ok] at h
    obtain ⟨f, hfirst, h⟩ := h
    rw [bind_eq_ok] at h
    obtain ⟨later, hlater, h⟩ := h
    obtain rfl := Except.ok.inj h
    obtain ⟨function, sites, rfl, hplanned⟩ := planFunction_ok hfirst
    obtain ⟨later', hlater', hrest⟩ := ih hlater
    refine ⟨later'.insert first.function (planOf config' function sites), ?_, fun F => ?_⟩
    · rw [planRecords, hplanned, hlater']
      rfl
    · rw [OrderedMap.get?_insert, OrderedMap.get?_insert]
      split
      · exact Or.inr ⟨function, sites, rfl, rfl⟩
      · exact hrest F

/-- A graph that is planned is planned under other settings, for the same functions. -/
theorem exists_planFlags_alike (config' : PassConfig) (h : planFlags p config g = .ok plan) :
    ∃ plan', planFlags p config' g = .ok plan' ∧
      PlannedAlike config config' plan.function? plan'.function? := by
  rw [planFlags, bind_eq_ok] at h
  obtain ⟨plans, hplans, h⟩ := h
  obtain rfl := Except.ok.inj h
  obtain ⟨plans', hplans', halike⟩ := exists_planRecords_alike config' hplans
  refine ⟨⟨config'.flagSymbol, config'.typeTagSymbol, plans'⟩, ?_, halike⟩
  rw [planFlags, hplans']
  rfl

/-- Every function with a plan is planned from some call sites. -/
theorem exists_planOf_of_function? (h : planFlags p config g = .ok plan)
    (hf : plan.function? F = some f) : ∃ function sites, f = planOf config function sites := by
  rw [planFlags, bind_eq_ok] at h
  obtain ⟨plans, hplans, h⟩ := h
  obtain rfl := Except.ok.inj h
  obtain ⟨r, -, -, hplanned⟩ := (planRecords_ok hplans).1 F f hf
  obtain ⟨function, sites, heq, -⟩ := planFunction_ok hplanned
  exact ⟨function, sites, heq⟩

/-! ## Plans of a function -/

/-- Whether a planned function loads the flag. -/
theorem readsEntryFlag_planOf : (planOf config function sites).readsEntryFlag =
    (!(planSlots 0 sites).isEmpty || !config.skipUnusedEntryRead) := rfl

/-- Settings make no difference to the plan of a function with slots. -/
theorem planOf_eq_of_slots (h : planSlots 0 sites ≠ []) :
    planOf config' function sites = planOf config function sites := by
  simp only [planOf, List.isEmpty_eq_false_iff.2 h, Bool.not_false, Bool.true_or]

/-- No store and no reset loads the flag. -/
theorem isReadEntryFlag_of_mem_planStores {op : FlagOp} (h : op ∈ planStores n sites) :
    op.isReadEntryFlag = false := by
  obtain ⟨site, -, hsite⟩ := site?_of_mem_planStores h
  cases op with
  | readEntryFlag block => simp [FlagOp.site?] at hsite
  | computeSlot _ _ _ _ => rfl
  | storeSlot _ _ => rfl
  | reset _ _ => rfl
  | storeConstant _ _ => rfl

/-- When loads are kept, the flag is loaded once, before all else. -/
theorem ops_planOf_keepingReads : ∃ later,
    (planOf config.keepingReads function sites).ops = .readEntryFlag function.entryBlock :: later ∧
      ∀ op ∈ later, op.isReadEntryFlag = false := by
  have hreads : (planOf config.keepingReads function sites).readsEntryFlag = true := by
    rw [readsEntryFlag_planOf, PassConfig.keepingReads, Bool.not_false, Bool.or_true]
  refine ⟨(planSlots 0 sites).map ScratchSlot.computeOp ++ planStores 0 sites, ?_, ?_⟩
  · rw [ops_planOf, hreads]
    rfl
  · intro op hop
    rcases List.mem_append.1 hop with hcompute | hstore
    · obtain ⟨slot, -, rfl⟩ := List.mem_map.1 hcompute
      rfl
    · exact isReadEntryFlag_of_mem_planStores hstore

/-- Leaving out unused loads takes the load from the plans of functions without slots. -/
theorem planOf_eq_withoutUnusedRead : planOf config.skippingReads function sites =
    (planOf config.keepingReads function sites).withoutUnusedRead := by
  by_cases hslots : planSlots 0 sites = []
  · have hstores : (planStores 0 sites).filter (fun op => !op.isReadEntryFlag) =
        planStores 0 sites := by
      refine List.filter_eq_self.2 fun op hop => ?_
      rw [isReadEntryFlag_of_mem_planStores hop]
      rfl
    have hload : (FlagOp.readEntryFlag function.entryBlock).isReadEntryFlag = true := rfl
    have hkept : (planOf config.keepingReads function sites).slots = [] := hslots
    rw [FunctionPlan.withoutUnusedRead, if_pos hkept]
    simp [planOf, hslots, PassConfig.skippingReads, PassConfig.keepingReads, hload, hstores]
  · have hkept : (planOf config.keepingReads function sites).slots ≠ [] := hslots
    rw [FunctionPlan.withoutUnusedRead, if_neg hkept]
    exact planOf_eq_of_slots hslots

/-- A frame holds the flag it was entered with when its function loads it, and zero otherwise. -/
theorem loaded_enter_planOf : ((planOf config function sites).enter flag).loaded =
    if (planOf config function sites).readsEntryFlag then flag else 0 := by
  have hcompute : ∀ (slots : List ScratchSlot) (l : FlagLocals),
      ((slots.map ScratchSlot.computeOp).foldl (FlagOp.enter flag) l).loaded = l.loaded := by
    intro slots l
    rw [List.foldl_map]
    exact List.foldlRecOn slots _ (motive := fun l' => FlagLocals.loaded l' = l.loaded) rfl
      fun l' hl' slot _ => hl'
  rw [FunctionPlan.enter, ops_planOf, List.foldl_append, foldl_enter_planStores, entryOps,
    List.foldl_append, hcompute]
  split
  · rfl
  · rfl

/-- Settings make no difference to the slots that a frame computes. -/
theorem slots_enter_planOf : ((planOf config' function sites).enter flag).slots =
    ((planOf config function sites).enter flag).slots := by
  by_cases hslots : planSlots 0 sites = []
  · have hempty : ∀ config, ((planOf config function sites).enter flag).slots =
        OrderedMap.empty := by
      intro config
      rw [FunctionPlan.enter, ops_planOf, List.foldl_append, foldl_enter_planStores, entryOps,
        hslots, List.map_nil, List.append_nil]
      split
      · rfl
      · rfl
    rw [hempty, hempty]
  · have hsame : planOf config' function sites = planOf config function sites :=
      planOf_eq_of_slots hslots
    rw [hsame]

/-- Before a call the slots are all that is looked at. -/
theorem FlagOp.before_congr {op : FlagOp} (h : l'.slots = l.slots) :
    op.before id l' flag = op.before id l flag := by
  cases op with
  | storeSlot site slot => rw [before, before, h]
  | readEntryFlag _ => rfl
  | computeSlot _ _ _ _ => rfl
  | reset _ _ => rfl
  | storeConstant _ _ => rfl

/-! ## Plans that agree -/

/-- Two plans do the same to the flag: frames compute the same slots, and the operations around
calls that look at these slots do the same. -/
structure FlagPlan.AgreesWith (plan plan' : FlagPlan) : Prop where
  /-- A frame that is entered with a flag computes the same slots. -/
  slots_enter : ∀ F flag, (plan'.enter F flag).slots = (plan.enter F flag).slots
  /-- Before a call the same is stored, or neither can store. -/
  before_eq : ∀ F id l l' flag, l'.slots = l.slots →
    plan'.before F id l' flag = plan.before F id l flag
  /-- After a call the flag is the same. -/
  after_eq : ∀ F id flag, plan'.after F id flag = plan.after F id flag

/-- Plans of the same call sites agree, whatever the settings. -/
theorem PlannedAlike.agreesWith
    (h : PlannedAlike config config' plan.function? plan'.function?) : plan.AgreesWith plan' := by
  constructor
  · intro F flag
    unfold FlagPlan.enter
    rcases h F with ⟨hf, hf'⟩ | ⟨function, sites, hf, hf'⟩
    · rw [hf, hf']
    · rw [hf, hf']
      exact slots_enter_planOf
  · intro F id l l' flag hl
    unfold FlagPlan.before
    rcases h F with ⟨hf, hf'⟩ | ⟨function, sites, hf, hf'⟩
    · rw [hf, hf']
    · have hops : FlagOp.before id l' = FlagOp.before id l :=
        funext fun flag => funext fun op => FlagOp.before_congr hl
      rw [hf, hf']
      dsimp only
      rw [before_planOf_eq, before_planOf_eq, hops]
  · intro F id flag
    unfold FlagPlan.after
    rcases h F with ⟨hf, hf'⟩ | ⟨function, sites, hf, hf'⟩
    · rw [hf, hf']
    · rw [hf, hf']
      dsimp only
      rw [after_planOf_eq, after_planOf_eq]

/-- Under the plan of any graph every call can be made. -/
theorem canCall_of_planFlags (h : planFlags p config g = .ok plan) : plan.CanCall p := by
  intro site entry flag _
  unfold FlagPlan.before FlagPlan.enter
  cases hf : plan.function? site.function with
  | none => exact ⟨flag, rfl⟩
  | some f =>
    obtain ⟨function, sites, rfl⟩ := exists_planOf_of_function? h hf
    exact exists_before_planOf

/-! ## Executions in step -/

/-- Two frames of the same function have computed the same slots. -/
structure FlagFrame.SameSlots (frame frame' : FlagFrame) : Prop where
  /-- They are frames of the same function. -/
  function_eq : frame'.function = frame.function
  /-- They have computed the same slots. -/
  slots_eq : frame'.locals.slots = frame.locals.slots

/-- Two executions are at the same point with the same flag, and differ only in what their frames
have loaded. -/
structure FlagState.InStep (s s' : FlagState) : Prop where
  /-- The flag is the same. -/
  flag_eq : s'.flag = s.flag
  /-- The same function runs, with the same slots. -/
  frame : s.frame.SameSlots s'.frame
  /-- The same calls are on the stack, made from frames with the same slots. -/
  callers : List.Forall₂ (fun call call' => call'.1 = call.1 ∧ call.2.SameSlots call'.2)
    s.callers s'.callers

namespace FlagState.InStep

/-- Executions in step have the same call sites on the stack. -/
theorem sites_eq (h : s.InStep s') : s'.sites = s.sites := by
  have hfst : List.Forall₂ (fun call' call => call'.1 = call.1) s'.callers s.callers :=
    (h.callers.imp fun _ _ hcall => hcall.1).flip
  have hsites : List.Forall₂ Eq s'.sites s.sites :=
    List.forall₂_map_left_iff.2 (List.forall₂_map_right_iff.2 hfst)
  exact List.forall₂_eq_eq_eq ▸ hsites

/-- Executions start in step. -/
theorem start (hplans : plan.AgreesWith plan') (root : FunctionId) (flag : Word) :
    (plan.start root flag).InStep (plan'.start root flag) where
  flag_eq := rfl
  frame := ⟨rfl, hplans.slots_enter root flag⟩
  callers := .nil

/-- What one execution does next the other one does too, and both stay in step. -/
theorem step (hplans : plan.AgreesWith plan') (h : s.InStep s') {event : FlagEvent}
    (hstep : plan.step p s event = some t) :
    ∃ t', plan'.step p s' event = some t' ∧ t.InStep t' := by
  rcases FlagPlan.step_cases hstep with
    ⟨site, callee, flag, rfl, hsite, hfunction, hbefore, rfl⟩ |
    ⟨id, caller, callers, rfl, hcallers, rfl⟩
  · have hfunction' : site.function = s'.frame.function := by
      rw [h.frame.function_eq, hfunction]
    have hbefore' : plan'.before s'.frame.function site.id s'.frame.locals s'.flag = some flag := by
      rw [← hfunction', h.flag_eq,
        hplans.before_eq site.function site.id _ _ s.flag h.frame.slots_eq, hbefore]
    refine ⟨_, FlagPlan.step_call_eq_some hsite hfunction' hbefore' callee, rfl, ?_, ?_⟩
    · exact ⟨rfl, hplans.slots_enter callee flag⟩
    · exact .cons ⟨rfl, h.frame⟩ h.callers
  · -- Both stacks hold the same calls, so there is a frame to return to in both.
    have hstack := h.callers
    rw [hcallers] at hstack
    cases hstack' : s'.callers with
    | nil =>
      rw [hstack'] at hstack
      cases hstack
    | cons call' callers' =>
      obtain ⟨id', caller'⟩ := call'
      rw [hstack'] at hstack
      obtain ⟨⟨rfl, hcaller⟩, hrest⟩ := List.forall₂_cons.1 hstack
      refine ⟨_, FlagPlan.step_ret_eq_some hstack', ?_, hcaller, hrest⟩
      rw [hplans.after_eq, h.flag_eq, hcaller.function_eq]

/-- Executions stay in step over any events. -/
theorem run (hplans : plan.AgreesWith plan') (h : s.InStep s') {events : List FlagEvent}
    (hrun : plan.run p s events = some t) :
    ∃ t', plan'.run p s' events = some t' ∧ t.InStep t' := by
  induction events generalizing s s' with
  | nil =>
    obtain rfl : s = t := Option.some.inj hrun
    exact ⟨s', rfl, h⟩
  | cons event rest ih =>
    rw [FlagPlan.run_cons] at hrun
    obtain ⟨mid, hmid, hrest⟩ := Option.bind_eq_some_iff.1 hrun
    obtain ⟨mid', hmid', hinstep⟩ := h.step hplans hmid
    obtain ⟨t', ht', hend⟩ := ih hinstep hrest
    refine ⟨t', ?_, hend⟩
    rw [FlagPlan.run_cons, hmid', Option.bind_some, ht']

end FlagState.InStep

/-! ## Both plans compared -/

/-- Of two plans one leaves out the loads of the flag that no slot depends on, which makes no
difference to any execution. -/
structure FlagPlan.LeavesOutUnusedReads (p : Program) (kept skipped : FlagPlan) : Prop where
  /-- The flag register is the same. -/
  flagSymbol_eq : skipped.flagSymbol = kept.flagSymbol
  /-- The type-tag register is the same. -/
  typeTagSymbol_eq : skipped.typeTagSymbol = kept.typeTagSymbol
  /-- The same functions have plans, and those without slots lose their load. -/
  function?_eq : ∀ F, skipped.function? F = (kept.function? F).map (·.withoutUnusedRead)
  /-- In the first plan every function loads the flag, by one operation. -/
  reads : ∀ F f, kept.function? F = some f → f.readsEntryFlag = true ∧
    ∃ later, f.ops = .readEntryFlag f.entryBlock :: later ∧
      ∀ op ∈ later, op.isReadEntryFlag = false
  /-- In both plans a frame has loaded the flag it was entered with, or zero when its function does
  not load the flag. -/
  loaded_eq : ∀ F f, (kept.function? F = some f ∨ skipped.function? F = some f) → ∀ flag,
    (f.enter flag).loaded = if f.readsEntryFlag then flag else 0
  /-- Every point of every execution is reached under both plans, with the same flag, in the same
  function and with the same calls on the stack. -/
  run_eq : ∀ root flag tree, FrameTree.MadeBy p root tree → ∀ events, events <+: tree.events →
    ∃ s s', kept.run p (kept.start root flag) events = some s ∧
      skipped.run p (skipped.start root flag) events = some s' ∧
      s'.flag = s.flag ∧ s'.frame.function = s.frame.function ∧ s'.sites = s.sites

/-- A graph that can be planned has a plan with all loads and one without those that are not
used. -/
theorem leavesOutUnusedReads_of_planFlags (h : planFlags p config g = .ok plan) :
    ∃ kept skipped, planFlags p config.keepingReads g = .ok kept ∧
      planFlags p config.skippingReads g = .ok skipped ∧ kept.LeavesOutUnusedReads p skipped := by
  obtain ⟨kept, hkept, -⟩ := exists_planFlags_alike config.keepingReads h
  obtain ⟨skipped, hskipped, halike⟩ := exists_planFlags_alike config.skippingReads hkept
  obtain ⟨hflag, htag⟩ := symbols_of_planFlags hkept
  obtain ⟨hflag', htag'⟩ := symbols_of_planFlags hskipped
  have hplans : kept.AgreesWith skipped := halike.agreesWith
  refine ⟨kept, skipped, hkept, hskipped, ?_⟩
  constructor
  · rw [hflag, hflag']
    rfl
  · rw [htag, htag']
    rfl
  · intro F
    rcases halike F with ⟨hf, hf'⟩ | ⟨function, sites, hf, hf'⟩
    · rw [hf, hf']
      rfl
    · rw [hf, hf', planOf_eq_withoutUnusedRead]
      rfl
  · intro F f hf
    obtain ⟨function, sites, rfl⟩ := exists_planOf_of_function? hkept hf
    refine ⟨?_, ops_planOf_keepingReads⟩
    rw [readsEntryFlag_planOf, PassConfig.keepingReads, Bool.not_false, Bool.or_true]
  · rintro F f (hf | hf) flag
    · obtain ⟨function, sites, rfl⟩ := exists_planOf_of_function? hkept hf
      exact loaded_enter_planOf
    · obtain ⟨function, sites, rfl⟩ := exists_planOf_of_function? hskipped hf
      exact loaded_enter_planOf
  · intro root flag tree htree events hevents
    obtain ⟨s, hs⟩ : ∃ s, kept.run p (kept.start root flag) events = some s :=
      (canCall_of_planFlags hkept).exists_run_upTo htree hevents
    obtain ⟨s', hs', hinstep⟩ := (FlagState.InStep.start hplans root flag).run hplans hs
    exact ⟨s, s', hs, hs', hinstep.flag_eq, hinstep.frame.function_eq, hinstep.sites_eq⟩

/-- When the call sites of the relay are guarded as far as they are no entries, all three functions
load the flag, and the one that only has an entry need not. -/
theorem leavesOutUnusedReads_relay : ∃ (g : CallPathGraph) (plan kept skipped : FlagPlan),
    planFlags relay (.ofPreset .precise) g = .ok plan ∧ kept.LeavesOutUnusedReads relay skipped ∧
      kept.entryReadCount = 3 ∧ skipped.entryReadCount = 2 := by
  have hbuilt : ∃ c g plan, Classification.ofFacts relay relayFacts = .ok c ∧
      CallPathGraph.build relay (.ofPreset .precise) c = .ok g ∧
      planFlags relay (.ofPreset .precise) g = .ok plan ∧
      (planFlags relay (PassConfig.ofPreset .precise).keepingReads g).map (·.entryReadCount) =
        .ok 3 ∧
      (planFlags relay (PassConfig.ofPreset .precise).skippingReads g).map (·.entryReadCount) =
        .ok 2 := ⟨_, _, _, rfl, rfl, rfl, rfl, rfl⟩
  obtain ⟨-, g, plan, -, -, hplan, hcount, hcount'⟩ := hbuilt
  obtain ⟨kept, skipped, hkept, hskipped, hleaves⟩ := leavesOutUnusedReads_of_planFlags hplan
  rw [hkept] at hcount
  rw [hskipped] at hcount'
  exact ⟨g, plan, kept, skipped, hplan, hleaves, Except.ok.inj hcount, Except.ok.inj hcount'⟩

end HeapDomains
