import HeapDomains.Proofs.Flag.Frames
import HeapDomains.Proofs.Flag.Roles
import HeapDomains.Proofs.Report

/-!
# The flag between calls

What the flag holds while no call site on a reported path is on the stack. A guarded call clears the
flag when it returns and an exempt one leaves it alone; an entry raises the flag, and by design
nothing clears it after the call. So the mask of an entry stays in the flag until some guarded call
returns. `FlagTrail` runs beside an execution and keeps the entry whose mask is still there, and
`Tracks` is the invariant that joins the two: as long as no guarded call site is on the stack, the
flag is the mask of that entry, and zero when there is none. `flag_of_idle` says so of every moment
of every execution that starts from a flag of zero.
-/

namespace HeapDomains

/-- What the events of an execution leave behind. -/
structure FlagTrail where
  /-- The call sites on the stack, innermost first. -/
  sites : List InstId
  /-- The entry that was called last, unless a guarded call has returned since. -/
  pending : Option InstId
  deriving DecidableEq

/-- Nothing has happened yet. -/
def FlagTrail.initial : FlagTrail := ⟨[], none⟩

namespace CallPathGraph

/-- The entry that is pending once a call has returned: none after a guarded one. -/
def pendingAfter (g : CallPathGraph) (site : InstId) (pending : Option InstId) : Option InstId :=
  match g.role site with
  | .ok .guarded => none
  | .ok .entry | .ok .exempt | .error _ => pending

/-- The trail after an event. -/
def trail (g : CallPathGraph) (t : FlagTrail) : FlagEvent → FlagTrail
  | .call site _ => ⟨site :: t.sites, if site ∈ g.entries then some site else t.pending⟩
  | .ret =>
    match t.sites with
    | [] => t
    | site :: rest => ⟨rest, g.pendingAfter site t.pending⟩

/-- The entry that is called last by some events, unless a guarded call returns after that. -/
def pendingEntry (g : CallPathGraph) (events : List FlagEvent) : Option InstId :=
  (events.foldl g.trail .initial).pending

/-- The value that a pending entry leaves in the flag: its mask, and zero without one. -/
inductive LeftBy (p : Program) (g : CallPathGraph) : Option InstId → Word → Prop
  /-- Nothing is pending. -/
  | cleared : LeftBy p g none 0
  /-- An entry is pending. -/
  | raised {site : CallSite} : p.callSite site.id = .ok site → site.id ∈ g.entries →
    LeftBy p g (some site.id) (g.argMask site)

end CallPathGraph

variable {p : Program} {config : PassConfig} {facts : Facts} {c : Classification}
  {g : CallPathGraph} {plan : FlagPlan} {s s' : FlagState} {t : FlagTrail} {root : FunctionId}
  {events : List FlagEvent} {pending : Option InstId} {flag : Word}

namespace CallPathGraph

/-- Nothing is pending after a guarded call. -/
theorem pendingAfter_of_guarded {site : InstId} (hguarded : g.role site = .ok .guarded) :
    g.pendingAfter site pending = none := by
  rw [pendingAfter, hguarded]

/-- What is pending stays so after a call that is not guarded. -/
theorem pendingAfter_eq_self {site : InstId} (hguarded : g.role site ≠ .ok .guarded) :
    g.pendingAfter site pending = pending := by
  unfold pendingAfter
  split
  · rename_i hrole
    exact absurd hrole hguarded
  · rfl
  · rfl
  · rfl

/-- The flag is zero exactly when no entry is pending, since the mask of an entry is not zero. -/
theorem LeftBy.eq_zero_iff (hvalid : config.validated = .ok config)
    (hg : build p config c = .ok g) (h : LeftBy p g pending flag) : flag = 0 ↔ pending = none := by
  cases h with
  | cleared => exact iff_of_true rfl rfl
  | raised hsite hentry =>
    have hmask := argMask_ne_zero hvalid hg hsite (contains_of_mem_entries hg hentry)
    exact iff_of_false hmask (Option.some_ne_none _)

end CallPathGraph

/-- A trail tracks an execution: it has the call sites on the stack, and while none of them is
guarded, the flag is what the pending entry leaves. -/
structure Tracks (p : Program) (g : CallPathGraph) (plan : FlagPlan) (t : FlagTrail)
    (s : FlagState) : Prop where
  /-- The frames have been entered with some flag. -/
  entered : s.Entered p plan fun _ _ => True
  /-- The trail has the call sites on the stack. -/
  sites_eq : t.sites = s.sites
  /-- While no call site on the stack is guarded, the flag is what the pending entry leaves. -/
  leftBy : (∀ x ∈ s.sites, g.role x ≠ .ok .guarded) → g.LeftBy p t.pending s.flag

namespace Tracks

/-- An execution that starts from a flag of zero is tracked from the start. -/
theorem start : Tracks p g plan .initial (plan.start root 0) where
  entered := entered_start trivial
  sites_eq := rfl
  leftBy _ := .cleared

/-- A trail keeps track over an event. -/
theorem step (hg : CallPathGraph.build p config c = .ok g)
    (hplan : planFlags p config g = .ok plan) (h : Tracks p g plan t s) {event : FlagEvent}
    (hstep : plan.step p s event = some s') : Tracks p g plan (g.trail t event) s' := by
  rcases step_cases_of_frames (CallPathGraph.registry_of_build hg) hplan h.entered hstep with
    ⟨site, callee, entry, rfl, hsite, -, hflag, hsites, hentered⟩ |
    ⟨site, rfl, hsite, hsites, hflag, hentered⟩
  · refine ⟨hentered trivial, by rw [hsites, ← h.sites_eq]; rfl, fun hnone => ?_⟩
    rw [hsites] at hnone
    rw [CallPathGraph.trail, hflag]
    dsimp only
    by_cases hentry : site.id ∈ g.entries
    · rw [if_pos hentry, CallPathGraph.flagBefore_of_mem_entries hg hentry]
      exact .raised hsite hentry
    · -- The call site is neither guarded nor an entry, so the call leaves the flag alone.
      rw [if_neg hentry,
        CallPathGraph.flagBefore_of_unguarded hg hentry (hnone site.id List.mem_cons_self)]
      exact h.leftBy fun x hx => hnone x (List.mem_cons_of_mem _ hx)
  · have htrail : t.sites = site.id :: s'.sites := h.sites_eq.trans hsites
    rw [CallPathGraph.trail, htrail]
    refine ⟨hentered, rfl, fun hnone => ?_⟩
    rw [hflag]
    dsimp only
    by_cases hguarded : g.role site.id = .ok .guarded
    · rw [CallPathGraph.pendingAfter_of_guarded hguarded,
        CallPathGraph.flagAfter_of_guarded hguarded]
      exact .cleared
    · -- The call site that is left was not guarded either, so the flag is still the trail's.
      rw [CallPathGraph.pendingAfter_eq_self hguarded, CallPathGraph.flagAfter_eq_self hguarded]
      refine h.leftBy fun x hx => ?_
      rw [hsites] at hx
      rcases List.mem_cons.1 hx with rfl | hx
      · exact hguarded
      · exact hnone x hx

/-- A trail keeps track over any events. -/
theorem run (hg : CallPathGraph.build p config c = .ok g)
    (hplan : planFlags p config g = .ok plan) (h : Tracks p g plan t s)
    (hrun : plan.run p s events = some s') : Tracks p g plan (events.foldl g.trail t) s' := by
  induction events generalizing t s with
  | nil =>
    obtain rfl : s = s' := Option.some.inj hrun
    exact h
  | cons event rest ih =>
    rw [FlagPlan.run_cons] at hrun
    obtain ⟨mid, hmid, hrest⟩ := Option.bind_eq_some_iff.1 hrun
    exact ih (h.step hg hplan hmid) hrest

end Tracks

/-- At every moment of an execution that starts from a flag of zero, while no call site on a
reported path is on the stack, the flag is zero exactly when no entry has been called since the last
return to a guarded call site, and otherwise the mask of the entry that was called last. -/
theorem flag_of_idle (hvalid : config.validated = .ok config) {report : Report}
    (hreport : p.analyse config facts = .ok report)
    (hc : Classification.ofFacts p facts = .ok c) (hg : CallPathGraph.build p config c = .ok g)
    {tree : FrameTree} (htree : tree.MadeBy p root) (hevents : events <+: tree.events) :
    ∃ s, report.plan.run p (report.plan.start root 0) events = some s ∧
      ((∀ x ∈ s.sites, x ∉ report.exposedCallSites) →
        (s.flag = 0 ↔ g.pendingEntry events = none) ∧
        ∀ e, g.pendingEntry events = some e → e ∈ report.entries ∧
          ∃ site, p.callSite e = .ok site ∧ s.flag = g.argMask site) := by
  have hplan := (Program.eq_ofStages_of_build hreport hc hg).1
  have hshows := showsGraph_of_analyse hreport hc hg
  have hreached : ∃ s, report.plan.run p (report.plan.start root 0) events = some s :=
    exists_run_of_prefix (CallPathGraph.registry_of_build hg) hplan htree hevents
  obtain ⟨s, hrun⟩ := hreached
  refine ⟨s, hrun, fun hidle => ?_⟩
  -- A guarded call site has a node, so none is on the stack.
  have hunguarded : ∀ x ∈ s.sites, g.role x ≠ .ok .guarded := fun x hx hrole =>
    hidle x hx ((hshows.mem_exposedCallSites_iff x).2 (CallPathGraph.contains_of_role hrole))
  have hleft : g.LeftBy p (g.pendingEntry events) s.flag :=
    (Tracks.start.run hg hplan hrun).leftBy hunguarded
  refine ⟨hleft.eq_zero_iff hvalid hg, fun e he => ?_⟩
  rw [he] at hleft
  rw [hshows.entries_eq]
  generalize s.flag = left at hleft
  cases hleft with
  | raised hsite hentry => exact ⟨hentry, _, hsite, rfl⟩

/-- In the relay all calls on the way to an allocation have returned. -/
theorem flag_of_idle_relay : ∃ c g report tree s, Classification.ofFacts relay relayFacts = .ok c ∧
    CallPathGraph.build relay (.ofPreset .precise) c = .ok g ∧
    relay.analyse (.ofPreset .precise) relayFacts = .ok report ∧ FrameTree.MadeBy relay ⟨2⟩ tree ∧
    report.plan.run relay (report.plan.start ⟨2⟩ 0) tree.events = some s ∧ s.sites = [] ∧
    (s.flag = 0 ↔ g.pendingEntry tree.events = none) ∧
    ∀ e, g.pendingEntry tree.events = some e → e ∈ report.entries ∧
      ∃ site, relay.callSite e = .ok site ∧ s.flag = g.argMask site := by
  have htree : (FrameTree.call ⟨5⟩ ⟨1⟩ (.call ⟨4⟩ ⟨0⟩ (.call ⟨2⟩ ⟨9⟩ .done .done) .done)
      .done).MadeBy relay ⟨2⟩ :=
    ⟨⟨_, rfl, rfl⟩, ⟨⟨_, rfl, rfl⟩, ⟨⟨_, rfl, rfl⟩, trivial, trivial⟩, trivial⟩, trivial⟩
  obtain ⟨s, hrun, hidle⟩ := flag_of_idle
    (show (PassConfig.ofPreset .precise).validated = .ok _ from rfl)
    (show relay.analyse _ relayFacts = .ok _ from rfl) rfl rfl htree List.prefix_rfl
  have hsites : s.sites = [] :=
    (Option.some.inj (congrArg (Option.map FlagState.sites) hrun)).symm
  refine ⟨_, _, _, _, s, rfl, rfl, rfl, htree, hrun, hsites, hidle fun x hx => ?_⟩
  rw [hsites] at hx
  exact absurd hx List.not_mem_nil

/-- The flag is not always zero while no call site on a reported path is on the stack: the call from
outside is an entry of the relay, and its mask is still in the flag when it has returned. -/
theorem flag_ne_zero_of_idle_relay : PassConfig.standard.validated = .ok .standard ∧
    ∃ report tree s, relay.analyse .standard relayFacts = .ok report ∧
      FrameTree.MadeBy relay ⟨2⟩ tree ∧
      report.plan.run relay (report.plan.start ⟨2⟩ 0) tree.events = some s ∧
      (∀ x ∈ s.sites, x ∉ report.exposedCallSites) ∧ s.flag ≠ 0 := by
  refine ⟨rfl, _, .call ⟨5⟩ ⟨1⟩ .done .done, _, rfl, ⟨⟨_, rfl, rfl⟩, trivial, trivial⟩, rfl, ?_, ?_⟩
  · intro x hx
    cases hx
  · decide

end HeapDomains
