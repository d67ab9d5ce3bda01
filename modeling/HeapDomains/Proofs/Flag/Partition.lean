import HeapDomains.Proofs.CallPath.Exempt
import HeapDomains.Proofs.Report

/-!
# Entries, exempt and guarded call sites

The call sites on reported paths are entries, exempt or guarded, and each is one of the three. Which
of them there are follows from the strategy: from every node an entry is reached going outwards, so
a strategy that exempts what an entry covers exempts all call sites but the entries, and a run under
it plans neither slots nor resets. A strategy that exempts nothing guards all but the entries.
-/

namespace HeapDomains

variable {p : Program} {config : PassConfig} {facts : Facts} {c : Classification}
  {g : CallPathGraph} {report : Report}

/-- The call sites of a report are divided among the three roles, as the strategy says. -/
structure Report.PartitionsRoles (report : Report) (config : PassConfig) (g : CallPathGraph) :
    Prop where
  /-- The call sites on reported paths are those with a role, and have one only. -/
  existsUnique_role_iff : ∀ s, s ∈ report.exposedCallSites ↔ ∃! role, g.role s = .ok role
  /-- The entries are the call sites with the role of an entry. -/
  mem_entries_iff : ∀ s, s ∈ report.entries ↔ g.role s = .ok .entry
  /-- The exempt call sites are those with the role of one. -/
  mem_exempt_iff : ∀ s, s ∈ report.exempt ↔ g.role s = .ok .exempt
  /-- No entry is exempt. -/
  entries_disjoint : ∀ s ∈ report.entries, s ∉ report.exempt
  /-- Where call sites are exempt, all but the entries are. -/
  mem_exempt_of_descendants : config.exemption = .descendants →
    ∀ s ∈ report.exposedCallSites, s ∉ report.entries → s ∈ report.exempt
  /-- No call site is guarded then. -/
  role_ne_guarded : config.exemption = .descendants → ∀ s, g.role s ≠ .ok .guarded
  /-- The whole plan has no slots then, and but loads of the flag only constants to store. -/
  plan_of_descendants : config.exemption = .descendants →
    ∀ f ∈ report.plan.functions.values, f.slots = [] ∧ ∀ op ∈ f.ops,
      (∃ block, op = .readEntryFlag block) ∨ ∃ site value, op = .storeConstant site value
  /-- Where call sites are guarded, none is exempt. -/
  exempt_of_disabled : config.exemption = .disabled → report.exempt = OrderedSet.empty
  /-- All but the entries are guarded then. -/
  role_of_disabled : config.exemption = .disabled →
    ∀ s ∈ report.exposedCallSites, s ∉ report.entries → g.role s = .ok .guarded

/-- A plan is made of loads of the flag and constants to store when no call site is guarded. -/
theorem slots_eq_nil_of_planFlags {plan : FlagPlan} {max : UInt32} (hreg : g.Registry p max)
    (hplan : planFlags p config g = .ok plan) (hroles : ∀ s, g.role s ≠ .ok .guarded)
    {f : FunctionPlan} (hf : f ∈ plan.functions.values) : f.slots = [] ∧ ∀ op ∈ f.ops,
      (∃ block, op = .readEntryFlag block) ∨ ∃ site value, op = .storeConstant site value := by
  obtain ⟨function, sites, rfl, hsites⟩ := exists_planOf_of_mem_functions hreg hplan hf
  refine planOf_of_unguarded fun s hs hguarded => hroles s.site.id ?_
  rw [hsites s hs, hguarded]

/-- A run that succeeds divides the call sites on reported paths among the three roles. -/
theorem partitionsRoles_of_analyse (hreport : p.analyse config facts = .ok report)
    (hc : Classification.ofFacts p facts = .ok c) (hg : CallPathGraph.build p config c = .ok g) :
    report.PartitionsRoles config g := by
  have hplan := (Program.eq_ofStages_of_build hreport hc hg).1
  have hshows := showsGraph_of_analyse hreport hc hg
  -- What the report shows is what the graph says, so all is about the roles in the graph.
  exact {
    existsUnique_role_iff := fun s =>
      (hshows.mem_exposedCallSites_iff s).trans CallPathGraph.contains_iff_existsUnique_role
    mem_entries_iff := fun s => by
      rw [hshows.entries_eq, CallPathGraph.role_eq_entry_iff hg]
    mem_exempt_iff := fun s => by
      rw [hshows.exempt_eq, CallPathGraph.role_eq_exempt_iff hg]
    entries_disjoint := fun s hentry hexempt => by
      rw [hshows.entries_eq] at hentry
      rw [hshows.exempt_eq, CallPathGraph.mem_exempt_iff hg] at hexempt
      exact hexempt.2.2 hentry
    mem_exempt_of_descendants := fun hdescendants s hs hentry => by
      rw [hshows.mem_exposedCallSites_iff] at hs
      rw [hshows.entries_eq] at hentry
      rw [hshows.exempt_eq, CallPathGraph.mem_exempt_iff hg]
      exact ⟨hdescendants, hs, hentry⟩
    role_ne_guarded := fun hdescendants s =>
      CallPathGraph.role_ne_guarded_of_descendants hg hdescendants
    plan_of_descendants := fun hdescendants f hf =>
      slots_eq_nil_of_planFlags (CallPathGraph.registry_of_build hg) hplan
        (fun s => CallPathGraph.role_ne_guarded_of_descendants hg hdescendants) hf
    exempt_of_disabled := fun hdisabled =>
      hshows.exempt_eq.trans (CallPathGraph.exempt_eq_empty_of_disabled hg hdisabled)
    role_of_disabled := fun hdisabled s hs hentry => by
      rw [hshows.mem_exposedCallSites_iff] at hs
      rw [hshows.entries_eq] at hentry
      exact CallPathGraph.role_of_disabled hg hdisabled hs hentry }

/-- The dispatched allocations are reached through entries and exempt call sites. -/
theorem partitionsRoles_dispatch : ∃ c g report,
    Classification.ofFacts dispatch dispatchFacts = .ok c ∧
    CallPathGraph.build dispatch .standard c = .ok g ∧
    dispatch.analyse .standard dispatchFacts = .ok report ∧
    PassConfig.standard.exemption = .descendants ∧ report.PartitionsRoles .standard g := by
  refine ⟨_, _, _, rfl, rfl, rfl, rfl, ?_⟩
  exact partitionsRoles_of_analyse (show dispatch.analyse .standard dispatchFacts = .ok _ from rfl)
    rfl rfl

end HeapDomains
