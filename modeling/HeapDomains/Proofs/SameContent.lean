import HeapDomains.Proofs.Acceptance
import HeapDomains.Proofs.CallPath.Exempt
import HeapDomains.Proofs.Flag.Alike
import HeapDomains.Proofs.Relocation

/-!
# Order and repetition of facts

A report does not depend on the order in which facts are listed, nor on how often. What a stage
finds is known by its elements: the reasons to move a stack slot, the nodes, edges and entries of
the call paths, the call sites in a record. Each of these was shown to follow from what is reported
somewhere, so it is the same for facts of the same content. Flag bits are given out in the order of
the reports and are not the same; the plans are `Alike`.
-/

namespace HeapDomains

/-- Two collections of facts say the same, in any order and any number of times. -/
structure Facts.SameContent (facts facts' : Facts) : Prop where
  /-- The same allocations are reported in the same contexts. -/
  mem_allocations_iff : ∀ report,
    report ∈ facts.reachableAllocations ↔ report ∈ facts'.reachableAllocations
  /-- The same stack slots are tainted. -/
  mem_tainted_iff : ∀ alloca,
    alloca ∈ facts.taintedStackObjects ↔ alloca ∈ facts'.taintedStackObjects
  /-- Each pointer may point to the same objects. -/
  mem_objects_iff : ∀ value object, object ∈ facts.objects value ↔ object ∈ facts'.objects value

variable {p : Program} {config : PassConfig} {facts facts' : Facts} {c c' : Classification}
  {g g' : CallPathGraph}

/-- A run succeeds on facts when it succeeds on others of the same content. -/
theorem Facts.SameContent.exists_analyse_iff (h : facts.SameContent facts') :
    (∃ r, p.analyse config facts = .ok r) ↔ ∃ r', p.analyse config facts' = .ok r' := by
  have hsites : ∀ s, s ∈ facts.reachableAllocations.flatMap (·.path) ↔
      s ∈ facts'.reachableAllocations.flatMap (·.path) := by
    simp only [List.mem_flatMap, h.mem_allocations_iff, implies_true]
  rw [HeapDomains.exists_analyse_iff, HeapDomains.exists_analyse_iff, Program.Fits.congr hsites]
  simp only [h.mem_tainted_iff]

namespace TwoRuns

variable (h : TwoRuns p config facts facts' c c' g g') (hsame : facts.SameContent facts')
include h hsame

/-! ## Classifications -/

/-- The same stack slots have to move, for the same reasons. -/
theorem relocations_eq : c.relocations = c'.relocations := by
  refine OrderedMap.ext_of_mem (Classification.allHaveReasons_ofFacts h.classified)
    (Classification.allHaveReasons_ofFacts h.classified') fun alloca reason => ?_
  change c.HasReason alloca reason ↔ c'.HasReason alloca reason
  rw [Classification.hasReason_ofFacts h.classified, Classification.hasReason_ofFacts h.classified']
  simp only [Classification.MayPointTo, hsame.mem_tainted_iff, hsame.mem_objects_iff]

omit hsame in
/-- The same pointers cross the boundary, whatever the facts are. -/
theorem boundaryPointers_eq : c.boundaryPointers = c'.boundaryPointers :=
  OrderedSet.ext fun value => by
    rw [Classification.mem_boundaryPointers_ofFacts h.classified,
      Classification.mem_boundaryPointers_ofFacts h.classified']

/-! ## Call paths -/

/-- The same call sites have a node. -/
theorem contains_eq (s : InstId) : g.contains s = g'.contains s := by
  rw [Bool.eq_iff_iff, CallPathGraph.contains_iff_reported h.classified h.built,
    CallPathGraph.contains_iff_reported h.classified' h.built']
  simp only [hsame.mem_allocations_iff]

/-- The same edges lead outwards. -/
theorem outward_iff (i o : InstId) : g.Outward i o ↔ g'.Outward i o := by
  rw [CallPathGraph.outward_iff_reported h.classified h.built,
    CallPathGraph.outward_iff_reported h.classified' h.built']
  simp only [hsame.mem_allocations_iff]

/-- The same call sites are entries. -/
theorem entries_eq : g.entries = g'.entries :=
  OrderedSet.ext fun s => by
    rw [CallPathGraph.mem_entries_iff_reported h.classified h.built,
      CallPathGraph.mem_entries_iff_reported h.classified' h.built']
    simp only [hsame.mem_allocations_iff]

/-- The same call sites are exempt. -/
theorem exempt_eq : g.exempt = g'.exempt :=
  OrderedSet.ext fun s => by
    rw [CallPathGraph.mem_exempt_iff h.built, CallPathGraph.mem_exempt_iff h.built',
      h.contains_eq hsame, h.entries_eq hsame]

/-- The same call sites occur in a context. -/
theorem heapMoves_eq : g.heapMoves = g'.heapMoves :=
  OrderedSet.ext fun s => by
    rw [CallPathGraph.mem_heapMoves_iff_reported h.classified h.built,
      CallPathGraph.mem_heapMoves_iff_reported h.classified' h.built']
    simp only [hsame.mem_allocations_iff]

/-- The same callees are known. -/
theorem callee?_eq (s : InstId) : g.callee? s = g'.callee? s :=
  Option.ext fun F => by
    rw [(CallPathGraph.notesCalls_of_build h.built).callee?_iff,
      (CallPathGraph.notesCalls_of_build h.built').callee?_iff, h.contains_eq hsame]

/-- The same functions are entered through calls of unknown target. -/
theorem indirectTargets_eq : g.indirectTargets = g'.indirectTargets := by
  have hmem : ∀ {g : CallPathGraph} {s F}, (∃ targets, g.indirectTargets.get? s = some targets ∧
      F ∈ targets) ↔ F ∈ g.targetsOf s := by
    intro g s F
    unfold CallPathGraph.targetsOf
    cases g.indirectTargets.get? s with
    | none => simp
    | some targets => simp
  have hfound : ∀ {g c}, CallPathGraph.build p config c = .ok g → ∀ s targets,
      g.indirectTargets.get? s = some targets → ∃ F, F ∈ targets := by
    intro g c hg s targets htargets
    obtain ⟨F, hF⟩ := (CallPathGraph.notesCalls_of_build hg).exists_mem_targetsOf
      (s := s) (by rw [htargets]; rfl)
    rw [← hmem, htargets] at hF
    obtain ⟨_, heq, hF⟩ := hF
    exact ⟨F, Option.some.inj heq ▸ hF⟩
  refine OrderedMap.ext_of_mem (hfound h.built) (hfound h.built') fun s F => ?_
  rw [hmem, hmem, (CallPathGraph.notesCalls_of_build h.built).mem_targetsOf_iff,
    (CallPathGraph.notesCalls_of_build h.built').mem_targetsOf_iff]
  simp only [h.outward_iff hsame]

/-- The call sites have the same roles. -/
theorem role_eq (s : InstId) : g.role s = g'.role s := by
  have hcontains := h.contains_eq hsame s
  by_cases hs : g.contains s = true
  · rw [CallPathGraph.role_eq_ok hs, CallPathGraph.role_eq_ok (hcontains ▸ hs), h.entries_eq hsame,
      h.exempt_eq hsame]
  · rw [CallPathGraph.role_eq_error hs, CallPathGraph.role_eq_error (hcontains ▸ hs)]

/-- The records have the same call sites, in some order. -/
theorem callSites_perm (F : FunctionId) :
    (g.recordOrNew F).callSites.Perm (g'.recordOrNew F).callSites := by
  have hsites : ∀ s, s ∈ c.allocations.flatMap (·.path) ↔ s ∈ c'.allocations.flatMap (·.path) := by
    intro s
    rw [List.flatMap_def, List.flatMap_def, Classification.paths_ofFacts h.classified,
      Classification.paths_ofFacts h.classified', mem_flatten_distinctPaths,
      mem_flatten_distinctPaths]
    simp only [List.mem_flatMap, hsame.mem_allocations_iff]
  rw [CallPathGraph.callSites_of_build h.built, CallPathGraph.callSites_of_build h.built']
  exact Program.sitesOf_perm hsites

end TwoRuns

/-! ## Reports -/

/-- Two reports find the same, but for numbers, bits and masks of their plans. -/
structure Report.SameFindings (r r' : Report) : Prop where
  /-- The same stack slots have to move, for the same reasons. -/
  relocations_eq : r.relocations = r'.relocations
  /-- The same pointers cross the boundary. -/
  boundaryPointers_eq : r.boundaryPointers = r'.boundaryPointers
  /-- The same call sites are on some path. -/
  exposedCallSites_eq : r.exposedCallSites = r'.exposedCallSites
  /-- Paths end at the same call sites. -/
  entries_eq : r.entries = r'.entries
  /-- The same call sites need no flag management. -/
  exempt_eq : r.exempt = r'.exempt
  /-- The same call sites occur in a calling context. -/
  heapMoves_eq : r.heapMoves = r'.heapMoves
  /-- The same callees are known. -/
  callees_eq : r.callees = r'.callees
  /-- The same functions are entered through each call site of unknown target. -/
  indirectTargets_eq : r.indirectTargets = r'.indirectTargets
  /-- The same functions are entered through some such call site. -/
  indirectlyReached_eq : r.indirectlyReached = r'.indirectlyReached
  /-- The same hardening steps are taken, in the same order. -/
  hardening_eq : r.hardening = r'.hardening
  /-- The numbers are the same. -/
  stats_eq : r.stats = r'.stats
  /-- The plans differ in numbers, bits and masks at most. -/
  plan_alike : r.plan.Alike r'.plan

/-- Facts of the same content are accepted together, and what is reported of them is the same but
for the numbers, bits and masks of the plans. -/
theorem sameFindings_of_sameContent (hsame : facts.SameContent facts') :
    ((∃ r, p.analyse config facts = .ok r) ↔ ∃ r', p.analyse config facts' = .ok r') ∧
      ∀ r r', p.analyse config facts = .ok r → p.analyse config facts' = .ok r' →
        r.SameFindings r' := by
  refine ⟨hsame.exists_analyse_iff, fun r r' hr hr' => ?_⟩
  obtain ⟨c, g, plan, hc, hg, hplan, rfl⟩ := Program.stages_of_analyse hr
  obtain ⟨c', g', plan', hc', hg', hplan', rfl⟩ := Program.stages_of_analyse hr'
  have hruns : TwoRuns p config facts facts' c c' g g' := ⟨hc, hc', hg, hg'⟩
  have hrelocations := hruns.relocations_eq hsame
  have hpointers := hruns.boundaryPointers_eq
  have htargets := hruns.indirectTargets_eq hsame
  have halike : plan.Alike plan' :=
    alike_of_planFlags (CallPathGraph.registry_of_build hg) (CallPathGraph.registry_of_build hg')
      hplan hplan' (hruns.callSites_perm hsame) (hruns.role_eq hsame)
  have hcallees : ∀ s, (Report.ofStages c g plan (config.hardening.steps p)).callees.get? s =
      (Report.ofStages c' g' plan' (config.hardening.steps p)).callees.get? s := by
    intro s
    rw [(showsGraph_of_analyse hr hc hg).get?_callees,
      (showsGraph_of_analyse hr' hc' hg').get?_callees, hruns.callee?_eq hsame]
  obtain ⟨hfunctions, hslots, hreads, hstores, hresets⟩ := counts_eq_of_alike halike
  constructor
  · exact hrelocations
  · exact hpointers
  · refine OrderedSet.ext fun s => ?_
    change s ∈ g.callSites ↔ s ∈ g'.callSites
    rw [CallPathGraph.mem_callSites, CallPathGraph.mem_callSites, hruns.contains_eq hsame]
  · exact hruns.entries_eq hsame
  · exact hruns.exempt_eq hsame
  · exact hruns.heapMoves_eq hsame
  · exact OrderedMap.ext hcallees
  · exact htargets
  · change g.indirectlyReached = g'.indirectlyReached
    rw [CallPathGraph.indirectlyReached, htargets, CallPathGraph.indirectlyReached]
  · rfl
  · rw [Report.ofStages, Report.ofStages, hfunctions, hslots, hreads, hstores, hresets,
      hrelocations, hpointers]
  · exact halike

/-- The facts about the exchange in another order, some of them more than once. -/
def shuffledExchangeFacts : Facts where
  reachableAllocations := [⟨⟨3⟩, []⟩, ⟨⟨3⟩, [⟨4⟩]⟩, ⟨⟨3⟩, []⟩]
  taintedStackObjects := [⟨2⟩, ⟨1⟩, ⟨2⟩]
  pointsTo := OrderedMap.ofList
    [(⟨0⟩, [⟨⟨1⟩, .stack ⟨2⟩⟩, ⟨⟨1⟩, .stack ⟨2⟩⟩, ⟨⟨0⟩, .stack ⟨1⟩⟩])]

/-- The exchange is reported in the same way when its facts are shuffled. -/
theorem sameFindings_exchange : exchangeFacts.SameContent shuffledExchangeFacts ∧
    ∃ r r', exchange.analyse .standard exchangeFacts = .ok r ∧
      exchange.analyse .standard shuffledExchangeFacts = .ok r' ∧ r.SameFindings r' := by
  have hsame : exchangeFacts.SameContent shuffledExchangeFacts := by
    refine ⟨fun report => ?_, fun alloca => ?_, fun value object => ?_⟩
    · simp [exchangeFacts, shuffledExchangeFacts, or_comm]
    · simp only [exchangeFacts, shuffledExchangeFacts, List.mem_cons, List.not_mem_nil]
      tauto
    · simp only [Facts.objects, exchangeFacts, shuffledExchangeFacts, OrderedMap.ofList,
        List.foldl_cons, List.foldl_nil, OrderedMap.get?_insert, OrderedMap.get?_empty]
      split
      · simp only [Option.getD_some, List.mem_cons, List.not_mem_nil]
        tauto
      · rfl
  obtain ⟨r, hr⟩ : ∃ r, exchange.analyse .standard exchangeFacts = .ok r := ⟨_, rfl⟩
  obtain ⟨r', hr'⟩ : ∃ r', exchange.analyse .standard shuffledExchangeFacts = .ok r' := ⟨_, rfl⟩
  exact ⟨hsame, r, r', hr, hr', (sameFindings_of_sameContent hsame).2 r r' hr hr'⟩

end HeapDomains
