import HeapDomains.Proofs.Flag.Frames
import HeapDomains.Proofs.Flag.Roles
import HeapDomains.Proofs.Report

/-!
# Exempt and guarded call sites in lockstep

Exempting call sites raises the flag more often than guarding them, and changes nothing else. Both
strategies build the same paths, so a run succeeds under both or under none. To compare executions,
the two plans are run over the same events: as long as the flag is zero where call sites are exempt,
it was zero there from the root on, so it is zero where they are guarded and every frame there was
entered with zero (`Lockstep`). A guarded call site never makes anything else of a frame that was
entered with zero, and an entry raises the flag under both plans.
-/

namespace HeapDomains

/-! ## The same paths -/

variable {p : Program} {config config' desc dis : PassConfig} {facts : Facts} {c : Classification}
  {g g' : CallPathGraph} {plan plan' : FlagPlan} {s s' : FlagState} {site : CallSite}

/-- Which call sites are exempt changes nothing else about a graph. -/
theorem CallPathGraph.exists_build_of_exemption (h : build p config c = .ok g)
    (hmax : config'.maxFlagBits = config.maxFlagBits) :
    ∃ exempt, build p config' c = .ok { g with exempt := exempt } := by
  rw [build, bind_eq_ok] at h
  obtain ⟨g₀, hg₀, h⟩ := h
  obtain rfl := Except.ok.inj h
  refine ⟨(g₀.exemptBy config'.exemption).exempt, ?_⟩
  rw [build, hmax, hg₀]
  change Except.ok (g₀.exemptBy config'.exemption) = _
  rw [exemptBy_eq (g := g₀) (e := config.exemption), exemptBy_eq]

/-- Two graphs that are built with the same number of flag bits differ in the exempt call sites
only. -/
theorem CallPathGraph.build_eq_of_exemption (hg : build p config c = .ok g)
    (hg' : build p config' c = .ok g') (hmax : config'.maxFlagBits = config.maxFlagBits) :
    g' = { g with exempt := g'.exempt } := by
  obtain ⟨exempt, hbuilt⟩ := exists_build_of_exemption hg hmax
  rw [hg'] at hbuilt
  rw [Except.ok.inj hbuilt]

/-- A run succeeds whatever call sites are exempt. -/
theorem exists_analyse_of_exemption (h : ∃ report, p.analyse config facts = .ok report)
    (hmax : config'.maxFlagBits = config.maxFlagBits) :
    ∃ report, p.analyse config' facts = .ok report := by
  obtain ⟨report, hreport⟩ := h
  obtain ⟨c, g, -, hc, hg, -⟩ := Program.stages_of_analyse hreport
  obtain ⟨exempt, hg'⟩ := CallPathGraph.exists_build_of_exemption hg hmax
  exact Program.exists_analyse hc hg'

/-! ## The simulation -/

/-- One classification planned under both strategies, of which `desc` exempts call sites and `dis`
guards them. -/
structure BothPlans (p : Program) (c : Classification) (desc dis : PassConfig)
    (g g' : CallPathGraph) (plan plan' : FlagPlan) : Prop where
  /-- The configuration that exempts call sites is accepted. -/
  validated : desc.validated = .ok desc
  /-- It exempts call sites. -/
  exempts : desc.exemption = .descendants
  /-- The other one guards them. -/
  guards : dis.exemption = .disabled
  /-- The graph where call sites are exempt. -/
  built : CallPathGraph.build p desc c = .ok g
  /-- The graph where they are guarded. -/
  built' : CallPathGraph.build p dis c = .ok g'
  /-- The plan where call sites are exempt. -/
  planned : planFlags p desc g = .ok plan
  /-- The plan where they are guarded. -/
  planned' : planFlags p dis g' = .ok plan'
  /-- Both graphs have the same entries. -/
  entries_eq : g'.entries = g.entries

/-- The calls on a stack with the functions they were made from. -/
def FlagState.calls (s : FlagState) : List (InstId × FunctionId) :=
  s.callers.map fun call => (call.1, call.2.function)

/-- Two executions are at the same point, and while the flag of the first one is zero, so are the
flag of the second one and the flags that its frames were entered with. -/
structure Lockstep (p : Program) (plan plan' : FlagPlan) (s s' : FlagState) : Prop where
  /-- The frames of the first one have been entered with some flag. -/
  entered : s.Entered p plan fun _ _ => True
  /-- The frames of the second one have been entered with zero while the flag is zero. -/
  entered_zero : s'.Entered p plan' fun _ entry => s.flag = 0 → entry = 0
  /-- The same function runs. -/
  function_eq : s'.frame.function = s.frame.function
  /-- The same calls are on the stack. -/
  calls_eq : s'.calls = s.calls
  /-- The flag of the second one is zero while that of the first one is. -/
  flag_eq_zero : s.flag = 0 → s'.flag = 0

namespace Lockstep

/-- Executions in lockstep have the same call sites on the stack. -/
theorem sites_eq (h : Lockstep p plan plan' s s') : s.sites = s'.sites := by
  have hcalls := congrArg (List.map Prod.fst) h.calls_eq
  simp only [FlagState.calls, List.map_map] at hcalls
  exact hcalls.symm

/-- Executions start in lockstep from a flag of zero. -/
theorem start (root : FunctionId) :
    Lockstep p plan plan' (plan.start root 0) (plan'.start root 0) where
  entered := entered_start trivial
  entered_zero := entered_start fun _ => rfl
  function_eq := rfl
  calls_eq := rfl
  flag_eq_zero _ := rfl

/-- A call that leaves the flag at zero where call sites are exempt does so where they are guarded,
when it is made from a frame that was entered with zero. -/
theorem flagBefore_eq_zero (hboth : BothPlans p c desc dis g g' plan plan')
    (hsite : p.callSite site.id = .ok site) {entry entry' flag flag' : Word}
    (hzero : g.flagBefore site entry flag = 0)
    (hflag : flag = 0 → flag' = 0) (hentry : flag = 0 → entry' = 0) :
    flag = 0 ∧ g'.flagBefore site entry' flag' = 0 := by
  by_cases hs : site.id ∈ g.entries
  · -- An entry raises its mask, which is not zero.
    have hnode := CallPathGraph.contains_of_mem_entries hboth.built hs
    rw [CallPathGraph.flagBefore_of_mem_entries hboth.built hs] at hzero
    exact absurd hzero (CallPathGraph.argMask_ne_zero hboth.validated hboth.built hsite hnode)
  · rw [CallPathGraph.flagBefore_of_descendants hboth.built hboth.exempts hs] at hzero
    refine ⟨hzero, ?_⟩
    rw [← hboth.entries_eq] at hs
    by_cases hnode : g'.contains site.id = true
    · rw [CallPathGraph.flagBefore_of_disabled hboth.built' hboth.guards hnode hs, hentry hzero,
        Word.has_zero, if_neg Bool.false_ne_true]
    · rw [CallPathGraph.flagBefore_of_not_contains hnode, hflag hzero]

/-- Executions stay in lockstep over a call: one can make it exactly when the other can. -/
theorem call (hboth : BothPlans p c desc dis g g' plan plan') (h : Lockstep p plan plan' s s')
    (id : InstId) (callee : FunctionId) : Option.Rel (Lockstep p plan plan')
      (plan.step p s (.call id callee)) (plan'.step p s' (.call id callee)) := by
  by_cases hmade : ∃ site, p.callSite id = .ok site ∧ site.function = s.frame.function
  · obtain ⟨site, hsite, hfunction⟩ := hmade
    obtain rfl := Program.callSite_id hsite
    have hfunction' : site.function = s'.frame.function := by rw [h.function_eq, hfunction]
    obtain ⟨entry, hframe, -⟩ := h.entered.frame_eq
    obtain ⟨entry', hframe', hentry'⟩ := h.entered_zero.frame_eq
    rw [step_call (CallPathGraph.registry_of_build hboth.built) hboth.planned hframe hsite
      hfunction, step_call (CallPathGraph.registry_of_build hboth.built') hboth.planned' hframe'
      hsite hfunction']
    -- A flag that is zero after the call was zero before it, so the frames below stay as they are.
    have hzero : g.flagBefore site entry s.flag = 0 →
        s.flag = 0 ∧ g'.flagBefore site entry' s'.flag = 0 := fun hzero =>
      flagBefore_eq_zero hboth hsite hzero h.flag_eq_zero hentry'
    refine .some ⟨?_, ?_, rfl, ?_, fun h0 => (hzero h0).2⟩
    · exact .call hsite hfunction h.entered trivial
    · exact .call hsite hfunction'
        (h.entered_zero.mono fun _ _ he h0 => he (hzero h0).1) fun h0 => (hzero h0).2
    · exact congrArg₂ List.cons (congrArg _ h.function_eq) h.calls_eq
  · have hnone : ∀ site, p.callSite id = .ok site → site.function ≠ s.frame.function :=
      fun site hsite hfunction => hmade ⟨site, hsite, hfunction⟩
    rw [step_call_eq_none hnone, step_call_eq_none (by rw [h.function_eq]; exact hnone)]
    exact .none

/-- Executions stay in lockstep over a return: one can make it exactly when the other can. -/
theorem ret (hboth : BothPlans p c desc dis g g' plan plan') (h : Lockstep p plan plan' s s') :
    Option.Rel (Lockstep p plan plan') (plan.step p s .ret) (plan'.step p s' .ret) := by
  have hcalls := h.calls_eq
  unfold FlagState.calls at hcalls
  -- Both stacks hold the same calls, so one is empty exactly when the other is.
  cases hcallers : s.callers with
  | nil =>
    rw [hcallers, List.map_nil, List.map_eq_nil_iff] at hcalls
    rw [FlagPlan.step, FlagPlan.step, FlagPlan.ret, FlagPlan.ret, hcallers, hcalls]
    exact .none
  | cons call callers =>
    obtain ⟨id, caller⟩ := call
    rw [hcallers, List.map_cons, List.map_eq_cons_iff] at hcalls
    obtain ⟨⟨id', caller'⟩, callers', hcallers', hcall, hcalls⟩ := hcalls
    obtain ⟨rfl, hcaller⟩ := Prod.mk.inj hcall
    obtain ⟨site, hsite, rfl, hfunction, hentered⟩ := h.entered.caller hcallers
    obtain ⟨site', hsite', hid', hfunction', hentered'⟩ := h.entered_zero.caller hcallers'
    obtain rfl : site' = site := by
      rw [hid', hsite] at hsite'
      exact (Except.ok.inj hsite').symm
    rw [step_ret (CallPathGraph.registry_of_build hboth.built) hboth.planned hcallers hsite
      hfunction, step_ret (CallPathGraph.registry_of_build hboth.built') hboth.planned' hcallers'
      hsite hfunction', CallPathGraph.flagAfter_of_descendants hboth.built hboth.exempts]
    refine .some ⟨hentered, hentered', hcaller, hcalls, fun h0 => ?_⟩
    rw [h.flag_eq_zero h0]
    exact CallPathGraph.flagAfter_zero

/-- Executions stay in lockstep over any events. -/
theorem run (hboth : BothPlans p c desc dis g g' plan plan') (h : Lockstep p plan plan' s s')
    (events : List FlagEvent) :
    Option.Rel (Lockstep p plan plan') (plan.run p s events) (plan'.run p s' events) := by
  induction events generalizing s s' with
  | nil => exact .some h
  | cons event rest ih =>
    have hstep : Option.Rel (Lockstep p plan plan') (plan.step p s event) (plan'.step p s' event) :=
      match event with
      | .call id callee => h.call hboth id callee
      | .ret => h.ret hboth
    rw [FlagPlan.run_cons, FlagPlan.run_cons]
    generalize plan.step p s event = next at hstep
    generalize plan'.step p s' event = next' at hstep
    cases hstep with
    | some hnext => exact ih hnext
    | none => exact .none

end Lockstep

/-! ## Both strategies compared -/

/-- A run under the settings `desc`, where call sites are exempt, finds what the run under `dis`
finds, where they are guarded, and its plan keeps the flag raised wherever the other one does. -/
structure RefinesGuarded (p : Program) (facts : Facts) (desc dis : PassConfig) : Prop where
  /-- A run succeeds under one strategy exactly when it succeeds under the other. -/
  succeeds_iff : (∃ r, p.analyse desc facts = .ok r) ↔ ∃ r', p.analyse dis facts = .ok r'
  /-- Both runs report the same entries and the same call sites on paths. -/
  entries_eq : ∀ r r', p.analyse desc facts = .ok r → p.analyse dis facts = .ok r' →
    r.entries = r'.entries ∧ r.exposedCallSites = r'.exposedCallSites
  /-- Both runs give out the same bits and raise the same argument bits. -/
  records_eq : ∀ c g g', Classification.ofFacts p facts = .ok c →
    CallPathGraph.build p desc c = .ok g → CallPathGraph.build p dis c = .ok g' →
    g.records = g'.records
  /-- Over any events that start from a flag of zero, both plans come to the same point or can both
  not go on, and there the flag of the first one is raised if that of the second one is. -/
  flag_covers : ∀ r r', p.analyse desc facts = .ok r → p.analyse dis facts = .ok r' →
    ∀ root events, Option.Rel (fun s s' => s.sites = s'.sites ∧ (s'.flag ≠ 0 → s.flag ≠ 0))
      (r.plan.run p (r.plan.start root 0) events) (r'.plan.run p (r'.plan.start root 0) events)

/-- Of two accepted configurations that differ in the strategy only, the one that exempts call sites
refines the one that guards them. -/
theorem refinesGuarded_of_validated (hvalid : desc.validated = .ok desc)
    (hdesc : desc.exemption = .descendants) (hdis : dis = { desc with exemption := .disabled }) :
    RefinesGuarded p facts desc dis := by
  have hmax : dis.maxFlagBits = desc.maxFlagBits := by rw [hdis]
  have hguards : dis.exemption = .disabled := by rw [hdis]
  constructor
  · constructor
    · exact fun h => exists_analyse_of_exemption h hmax
    · exact fun h => exists_analyse_of_exemption h hmax.symm
  · intro r r' hr hr'
    obtain ⟨c, g, -, hc, hg, -⟩ := Program.stages_of_analyse hr
    obtain ⟨exempt, hg'⟩ := CallPathGraph.exists_build_of_exemption hg hmax
    obtain ⟨-, hentries, hsites⟩ := Program.report_of_build hr hc hg
    obtain ⟨-, hentries', hsites'⟩ := Program.report_of_build hr' hc hg'
    rw [hentries, hentries', hsites, hsites']
    exact ⟨rfl, rfl⟩
  · intro c g g' _ hg hg'
    rw [CallPathGraph.build_eq_of_exemption hg hg' hmax]
  · intro r r' hr hr' root events
    obtain ⟨c, g, plan, hc, hg, -⟩ := Program.stages_of_analyse hr
    obtain ⟨exempt, hg'⟩ := CallPathGraph.exists_build_of_exemption hg hmax
    have hboth : BothPlans p c desc dis g { g with exempt := exempt } r.plan r'.plan :=
      ⟨hvalid, hdesc, hguards, hg, hg', (Program.report_of_build hr hc hg).1,
        (Program.report_of_build hr' hc hg').1, rfl⟩
    have hlockstep := (Lockstep.start root).run hboth events
    generalize r.plan.run p (r.plan.start root 0) events = reached at hlockstep
    generalize r'.plan.run p (r'.plan.start root 0) events = reached' at hlockstep
    cases hlockstep with
    | some h => exact .some ⟨h.sites_eq, fun hne h0 => hne (h.flag_eq_zero h0)⟩
    | none => exact .none

/-- The relay is planned with exempt and with guarded call sites. -/
theorem refinesGuarded_relay : PassConfig.standard.validated = .ok .standard ∧
    RefinesGuarded relay relayFacts .standard
      { PassConfig.standard with exemption := .disabled } :=
  ⟨rfl, refinesGuarded_of_validated rfl rfl rfl⟩

end HeapDomains
