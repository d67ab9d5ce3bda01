import HeapDomains.Proofs.CallPath.Calls
import HeapDomains.Proofs.Flag.Planner
import HeapDomains.Report.Basic

/-!
# Runs that succeed

A run is its stages one after the other. As a graph that is built has a plan, a run succeeds as soon
as the facts can be classified and the call paths built. The report shows the parts of that graph,
which are those of the reported paths (`showsPaths_of_analyse`).
-/

namespace HeapDomains

variable {p : Program} {config : PassConfig} {facts : Facts} {c : Classification}
  {g : CallPathGraph} {report : Report}

namespace Program

/-- A run that succeeds reports what its stages found. -/
theorem stages_of_analyse (h : p.analyse config facts = .ok report) :
    ∃ c g plan, Classification.ofFacts p facts = .ok c ∧ CallPathGraph.build p config c = .ok g ∧
      planFlags p config g = .ok plan ∧
      report = Report.ofStages c g plan (config.hardening.steps p) := by
  rw [analyse, bind_eq_ok] at h
  obtain ⟨c, hc, h⟩ := h
  rw [bind_eq_ok] at h
  obtain ⟨g, hg, h⟩ := h
  rw [bind_eq_ok] at h
  obtain ⟨plan, hplan, h⟩ := h
  exact ⟨c, g, plan, hc, hg, hplan, (Except.ok.inj h).symm⟩

/-- A run that succeeds reports the graph that is built, and its plan. -/
theorem eq_ofStages_of_build (h : p.analyse config facts = .ok report)
    (hc : Classification.ofFacts p facts = .ok c) (hg : CallPathGraph.build p config c = .ok g) :
    planFlags p config g = .ok report.plan ∧
      report = Report.ofStages c g report.plan (config.hardening.steps p) := by
  obtain ⟨c', g', plan, hc', hg', hplan, rfl⟩ := stages_of_analyse h
  obtain rfl : c' = c := Except.ok.inj (hc'.symm.trans hc)
  obtain rfl : g' = g := Except.ok.inj (hg'.symm.trans hg)
  exact ⟨hplan, rfl⟩

/-- The report of a run that succeeds has the entries and the plan of the graph that is built. -/
theorem report_of_build (h : p.analyse config facts = .ok report)
    (hc : Classification.ofFacts p facts = .ok c) (hg : CallPathGraph.build p config c = .ok g) :
    planFlags p config g = .ok report.plan ∧ report.entries = g.entries ∧
      report.exposedCallSites = g.callSites := by
  obtain ⟨hplan, heq⟩ := eq_ofStages_of_build h hc hg
  refine ⟨hplan, ?_, ?_⟩
  · rw [heq]; rfl
  · rw [heq]; rfl

/-- A run succeeds when the call paths can be built. -/
theorem exists_analyse (hc : Classification.ofFacts p facts = .ok c)
    (hg : CallPathGraph.build p config c = .ok g) :
    ∃ report, p.analyse config facts = .ok report := by
  have hplanned : ∃ plan, planFlags p config g = .ok plan :=
    exists_planFlags (CallPathGraph.registry_of_build hg)
  obtain ⟨plan, hplan⟩ := hplanned
  refine ⟨Report.ofStages c g plan (config.hardening.steps p), ?_⟩
  rw [analyse, hc]
  change (CallPathGraph.build p config c >>= _) = _
  rw [hg]
  change (planFlags p config g >>= _) = _
  rw [hplan]
  rfl

end Program

/-- Two runs of a program with the same settings, up to their graphs. -/
structure TwoRuns (p : Program) (config : PassConfig) (facts facts' : Facts)
    (c c' : Classification) (g g' : CallPathGraph) : Prop where
  /-- The first run classifies its facts. -/
  classified : Classification.ofFacts p facts = .ok c
  /-- The second run classifies its facts. -/
  classified' : Classification.ofFacts p facts' = .ok c'
  /-- The first run builds the call paths. -/
  built : CallPathGraph.build p config c = .ok g
  /-- The second run builds the call paths. -/
  built' : CallPathGraph.build p config c' = .ok g'

/-! ## The graph of a report -/

/-- A report shows the parts of a graph. -/
structure Report.ShowsGraph (report : Report) (g : CallPathGraph) : Prop where
  /-- The call sites on some path are the nodes. -/
  mem_exposedCallSites_iff : ∀ s, s ∈ report.exposedCallSites ↔ g.contains s = true
  /-- The entries are those of the graph. -/
  entries_eq : report.entries = g.entries
  /-- The exempt call sites are those of the graph. -/
  exempt_eq : report.exempt = g.exempt
  /-- The heap moves are those of the graph. -/
  heapMoves_eq : report.heapMoves = g.heapMoves
  /-- The known callees are those of the graph. -/
  get?_callees : ∀ s, report.callees.get? s = g.callee? s
  /-- The indirect targets are those of the graph. -/
  indirectTargets_eq : report.indirectTargets = g.indirectTargets
  /-- The functions that are entered indirectly are all indirect targets. -/
  mem_indirectlyReached_iff : ∀ F, F ∈ report.indirectlyReached ↔
    ∃ s targets, g.indirectTargets.get? s = some targets ∧ F ∈ targets

/-- A run that succeeds shows the graph it has built. -/
theorem showsGraph_of_analyse (hreport : p.analyse config facts = .ok report)
    (hc : Classification.ofFacts p facts = .ok c) (hg : CallPathGraph.build p config c = .ok g) :
    report.ShowsGraph g := by
  rw [(Program.eq_ofStages_of_build hreport hc hg).2]
  refine ⟨fun s => CallPathGraph.mem_callSites, rfl, rfl, rfl, fun s => Option.ext fun F => ?_, rfl,
    fun F => ?_⟩
  · -- A call site with a known callee has a node, so none is left out.
    rw [Report.ofStages, OrderedMap.get?_ofList_filterMap, ← OrderedSet.mem_def,
      CallPathGraph.mem_callSites]
    exact and_iff_right_of_imp fun hF =>
      ((CallPathGraph.notesCalls_of_build hg).callee?_iff.1 hF).1
  · rw [Report.ofStages, CallPathGraph.indirectlyReached, OrderedSet.mem_ofList, List.mem_flatMap]
    constructor
    · rintro ⟨targets, htargets, hF⟩
      obtain ⟨s, hs⟩ := OrderedMap.mem_values_iff.1 htargets
      exact ⟨s, targets, hs, hF⟩
    · rintro ⟨s, targets, hs, hF⟩
      exact ⟨targets, OrderedMap.mem_values_iff.2 ⟨s, hs⟩, hF⟩

/-- A run that succeeds has built the graph of the reported paths, and shows it in its report. -/
theorem showsPaths_of_analyse (hreport : p.analyse config facts = .ok report)
    (hc : Classification.ofFacts p facts = .ok c) (hg : CallPathGraph.build p config c = .ok g) :
    g.ShowsPaths p facts ∧ report.ShowsGraph g :=
  ⟨CallPathGraph.showsPaths_of_build hc hg, showsGraph_of_analyse hreport hc hg⟩

/-- A call through a pointer stands between two allocating functions and the place that asks for an
allocation; one of the two allocates through a pointer itself. -/
def dispatch : Program where
  functions := [⟨⟨0⟩, "first", ⟨0⟩⟩, ⟨⟨1⟩, "second", ⟨10⟩⟩, ⟨⟨2⟩, "dispatching", ⟨20⟩⟩,
    ⟨⟨3⟩, "asking", ⟨30⟩⟩]
  instructions := [
    ⟨⟨1⟩, ⟨0⟩, ⟨0⟩, .call (.direct ⟨9⟩) .plain, []⟩,
    ⟨⟨2⟩, ⟨1⟩, ⟨10⟩, .call .indirect .plain, []⟩,
    ⟨⟨3⟩, ⟨2⟩, ⟨20⟩, .call .indirect .plain, []⟩,
    ⟨⟨4⟩, ⟨3⟩, ⟨30⟩, .call (.direct ⟨2⟩) .plain, []⟩]
  pointerValues := []
  consistent := by decide

/-- Both allocations are reached from the place that asks, and the second one also on its own. -/
def dispatchFacts : Facts :=
  { Facts.empty with
    reachableAllocations := [⟨⟨1⟩, [⟨3⟩, ⟨4⟩]⟩, ⟨⟨2⟩, [⟨3⟩, ⟨4⟩]⟩, ⟨⟨2⟩, []⟩] }

/-- The graph of the dispatched allocations shows their paths. -/
theorem showsPaths_dispatch : ∃ c g report, Classification.ofFacts dispatch dispatchFacts = .ok c ∧
    CallPathGraph.build dispatch .standard c = .ok g ∧
    dispatch.analyse .standard dispatchFacts = .ok report ∧
    g.ShowsPaths dispatch dispatchFacts ∧ report.ShowsGraph g := by
  refine ⟨_, _, _, rfl, rfl, rfl, ?_⟩
  exact showsPaths_of_analyse (show dispatch.analyse .standard dispatchFacts = .ok _ from rfl) rfl
    rfl

end HeapDomains
