import HeapDomains.Proofs.CallPath.Budget
import HeapDomains.Proofs.CallPath.Exempt
import HeapDomains.Proofs.Relocation
import HeapDomains.Proofs.Report
import Mathlib.Data.List.Infix

/-!
# Facts that are added

When facts are added at the end, what was found before is found again. Nothing that a stage finds is
taken back, with one exception: a call site that was exempt may become an entry, so what stays is
that it is one of the two. Call sites keep their flag bits, since the first mention of a call site
stays where it is when more is mentioned; so masks only gain bits. This is what a run on more facts
needs to be comparable with one on fewer.
-/

namespace HeapDomains

/-- Facts are added at the end of others. -/
structure Facts.ExtendedBy (facts facts' : Facts) : Prop where
  /-- Reachable allocations are added after those from before. -/
  allocations_prefix : facts.reachableAllocations <+: facts'.reachableAllocations
  /-- Tainted stack slots are added after those from before. -/
  tainted_prefix : facts.taintedStackObjects <+: facts'.taintedStackObjects
  /-- For each pointer, objects are added after those from before. -/
  objects_prefix : ∀ value, facts.objects value <+: facts'.objects value

/-- A flag record is kept by another one: its call sites have the same bits there, and raise at
least those they raised. -/
structure FlagRecord.KeptBy (r r' : FlagRecord) : Prop where
  /-- Call sites are added after those from before. -/
  callSites_prefix : r.callSites <+: r'.callSites
  /-- So no call site changes its bit. -/
  bit?_eq : ∀ s b, r.bit? s = some b → r'.bit? s = some b
  /-- A mask has the bits from before. -/
  argMask_and_eq : ∀ s, r.argMask s &&& r'.argMask s = r.argMask s

variable {p : Program} {config : PassConfig} {facts facts' : Facts} {c c' : Classification}
  {g g' : CallPathGraph} {site : CallSite} {s i o : InstId} {n : Nat} {F : FunctionId}

/-- What is reported somewhere is still reported when facts are added. -/
theorem Facts.ExtendedBy.exists_report (h : facts.ExtendedBy facts')
    {P : ReachableAllocation → Prop} (hreport : ∃ report ∈ facts.reachableAllocations, P report) :
    ∃ report ∈ facts'.reachableAllocations, P report := by
  obtain ⟨report, hmem, hP⟩ := hreport
  exact ⟨report, h.allocations_prefix.subset hmem, hP⟩

namespace TwoRuns

variable (h : TwoRuns p config facts facts' c c' g g') (hext : facts.ExtendedBy facts')
include h hext

/-! ## Classifications -/

/-- A reason to move a stack slot is still one. -/
theorem hasReason_mono {alloca : InstId} {reason : RelocationReason}
    (hreason : c.HasReason alloca reason) : c'.HasReason alloca reason := by
  rw [Classification.hasReason_ofFacts h.classified] at hreason
  rw [Classification.hasReason_ofFacts h.classified']
  rcases hreason with ⟨hq, htainted, hmovable⟩ | ⟨hq, value, hvalue, hcrosses, object, hobject, hx⟩
  · exact Or.inl ⟨hq, hext.tainted_prefix.subset htainted, hmovable⟩
  · exact Or.inr ⟨hq, value, hvalue, hcrosses, object, (hext.objects_prefix _).subset hobject, hx⟩

/-- The reasons to move a stack slot are still there. -/
theorem reasons_mono {alloca : InstId} {reasons : OrderedSet RelocationReason}
    (hfound : c.reasons? alloca = some reasons) :
    ∃ reasons', c'.reasons? alloca = some reasons' ∧ ∀ reason ∈ reasons, reason ∈ reasons' := by
  obtain ⟨first, hfirst⟩ := Classification.allHaveReasons_ofFacts h.classified _ _ hfound
  obtain ⟨reasons', hfound', -⟩ := h.hasReason_mono hext ⟨reasons, hfound, hfirst⟩
  refine ⟨reasons', hfound', fun reason hreason => ?_⟩
  obtain ⟨_, heq, hmem⟩ := h.hasReason_mono hext ⟨reasons, hfound, hreason⟩
  rw [hfound'] at heq
  exact Option.some.inj heq ▸ hmem

/-! ## Call paths -/

/-- A call site with a node still has one. -/
theorem contains_mono (hs : g.contains s = true) : g'.contains s = true := by
  rw [CallPathGraph.contains_iff_reported h.classified h.built] at hs
  rw [CallPathGraph.contains_iff_reported h.classified' h.built']
  exact hext.exists_report hs

/-- An edge is still there. -/
theorem outward_mono (hedge : g.Outward i o) : g'.Outward i o := by
  rw [CallPathGraph.outward_iff_reported h.classified h.built] at hedge
  rw [CallPathGraph.outward_iff_reported h.classified' h.built']
  exact hext.exists_report hedge

/-- An entry is still one. -/
theorem entries_mono (hs : s ∈ g.entries) : s ∈ g'.entries := by
  rw [CallPathGraph.mem_entries_iff_reported h.classified h.built] at hs
  rw [CallPathGraph.mem_entries_iff_reported h.classified' h.built']
  exact hext.exists_report hs

/-- A call site in a context is still in one. -/
theorem heapMoves_mono (hs : s ∈ g.heapMoves) : s ∈ g'.heapMoves := by
  rw [CallPathGraph.mem_heapMoves_iff_reported h.classified h.built] at hs
  rw [CallPathGraph.mem_heapMoves_iff_reported h.classified' h.built']
  exact hext.exists_report hs

/-- An exempt call site is still exempt, or has become an entry. -/
theorem mem_entries_or_exempt (hs : s ∈ g.exempt) : s ∈ g'.entries ∨ s ∈ g'.exempt := by
  obtain ⟨hexemption, hnode, -⟩ := (CallPathGraph.mem_exempt_iff h.built).1 hs
  by_cases hentry : s ∈ g'.entries
  · exact Or.inl hentry
  · exact Or.inr ((CallPathGraph.mem_exempt_iff h.built').2
      ⟨hexemption, h.contains_mono hext hnode, hentry⟩)

/-- A known callee is still known. -/
theorem callee?_mono (hs : g.callee? s = some F) : g'.callee? s = some F := by
  rw [(CallPathGraph.notesCalls_of_build h.built).callee?_iff] at hs
  rw [(CallPathGraph.notesCalls_of_build h.built').callee?_iff]
  exact ⟨h.contains_mono hext hs.1, hs.2⟩

/-- A function that is entered through a call of unknown target still is. -/
theorem targetsOf_mono (hF : F ∈ g.targetsOf s) : F ∈ g'.targetsOf s := by
  rw [(CallPathGraph.notesCalls_of_build h.built).mem_targetsOf_iff] at hF
  rw [(CallPathGraph.notesCalls_of_build h.built').mem_targetsOf_iff]
  obtain ⟨hsite, i, inner, hedge, hinner⟩ := hF
  exact ⟨hsite, i, inner, h.outward_mono hext hedge, hinner⟩

/-- The functions that are entered through a call of unknown target are still noted. -/
theorem indirectTargets_mono {targets : OrderedSet FunctionId}
    (hfound : g.indirectTargets.get? s = some targets) :
    ∃ targets', g'.indirectTargets.get? s = some targets' ∧ ∀ F ∈ targets, F ∈ targets' := by
  have hsome : (g.indirectTargets.get? s).isSome = true := by rw [hfound]; rfl
  rw [CallPathGraph.isSome_indirectTargets_iff_heapMove h.built] at hsome
  obtain ⟨targets', hfound'⟩ := Option.isSome_iff_exists.1
    ((CallPathGraph.isSome_indirectTargets_iff_heapMove h.built').2
      ⟨h.heapMoves_mono hext hsome.1, hsome.2⟩)
  refine ⟨targets', hfound', fun F hF => ?_⟩
  have htargets : F ∈ g.targetsOf s := by rwa [CallPathGraph.targetsOf, hfound, Option.getD_some]
  have htargets' := h.targetsOf_mono hext htargets
  rwa [CallPathGraph.targetsOf, hfound', Option.getD_some] at htargets'

/-! ## Bits -/

/-- The record of a function starts with the call sites from before. -/
theorem callSites_prefix (F : FunctionId) :
    (g.recordOrNew F).callSites <+: (g'.recordOrNew F).callSites := by
  have hpaths : facts.distinctPaths.flatten <+: facts'.distinctPaths.flatten :=
    List.IsPrefix.flatten (prefix_eraseDups (hext.allocations_prefix.map _))
  rw [CallPathGraph.callSites_of_build h.built, CallPathGraph.callSites_of_build h.built',
    List.flatMap_def, List.flatMap_def, Classification.paths_ofFacts h.classified,
    Classification.paths_ofFacts h.classified']
  exact Program.prefix_sitesOf hpaths

/-- A record is still there, and starts with the call sites from before. -/
theorem record?_mono {r : FlagRecord} (hr : g.record? F = some r) :
    ∃ r', g'.record? F = some r' ∧ r.callSites <+: r'.callSites := by
  have hpre := h.callSites_prefix hext F
  rw [CallPathGraph.recordOrNew, hr, Option.getD_some] at hpre
  unfold CallPathGraph.recordOrNew at hpre
  cases hr' : g'.record? F with
  | some r' =>
    rw [hr', Option.getD_some] at hpre
    exact ⟨r', rfl, hpre⟩
  | none =>
    have hnil := (CallPathGraph.registry_of_build h.built).record_ne_nil hr
    rw [hr'] at hpre
    exact absurd (List.prefix_nil.1 hpre) hnil

/-- A call site keeps its bit. -/
theorem bit?_mono (hn : g.bit? site = some n) : g'.bit? site = some n := by
  obtain ⟨r, hr, hbit⟩ := Option.bind_eq_some_iff.1 hn
  obtain ⟨r', hr', later, hlater⟩ := h.record?_mono hext hr
  rw [CallPathGraph.bit?, hr', Option.bind_some]
  exact FlagRecord.bit?_append hbit hlater.symm

/-- A call site still raises the bits from before. -/
theorem argBits_mono (hsite : p.callSite s = .ok site) (hn : n ∈ g.argBits site) :
    n ∈ g'.argBits site := by
  rw [(CallPathGraph.argBitsMirror_of_build h.built).mem_argBits_iff hsite,
    CallPathGraph.mem_locations h.classified] at hn
  rw [(CallPathGraph.argBitsMirror_of_build h.built').mem_argBits_iff hsite,
    CallPathGraph.mem_locations h.classified']
  rcases hn with ⟨i, inner, hedge, hinner, hbit⟩ | ⟨hzero, hlocation⟩
  · exact Or.inl ⟨i, inner, h.outward_mono hext hedge, hinner, h.bit?_mono hext hbit⟩
  · exact Or.inr ⟨hzero, hext.exists_report hlocation⟩

/-- Every record is kept. -/
theorem record_kept {r : FlagRecord} (hr : g.record? F = some r) :
    ∃ r', g'.record? F = some r' ∧ r.KeptBy r' := by
  obtain ⟨r', hr', hpre⟩ := h.record?_mono hext hr
  refine ⟨r', hr', hpre, fun s b hb => ?_, fun s => BitVec.eq_of_getLsbD_eq fun b _ => ?_⟩
  · obtain ⟨later, hlater⟩ := hpre
    exact FlagRecord.bit?_append hb hlater.symm
  · rw [BitVec.getLsbD_and, Bool.and_eq_left_iff_imp]
    intro hb
    obtain ⟨bit, hraised, hmod⟩ := FlagRecord.getLsbD_argMask.1 hb
    obtain ⟨site, hsite, rfl, hargs⟩ := CallPathGraph.argBits_of_mem_argBitsOf h.built hr hraised
    have hraised' := h.argBits_mono hext hsite hargs
    rw [CallPathGraph.argBits, CallPathGraph.recordOrNew, hr', Option.getD_some,
      Program.callSite_id hsite] at hraised'
    exact FlagRecord.getLsbD_argMask.2 ⟨bit, hraised', hmod⟩

end TwoRuns

/-! ## Reports -/

/-- What one run finds is found by another one too, with the same flag bits. -/
structure KeepsFindings (r r' : Report) (g g' : CallPathGraph) : Prop where
  /-- A stack slot that has to move still has to, for the reasons from before. -/
  reasons : ∀ alloca reasons, r.relocations.get? alloca = some reasons →
    ∃ reasons', r'.relocations.get? alloca = some reasons' ∧ ∀ reason ∈ reasons, reason ∈ reasons'
  /-- A pointer that crosses the boundary still does. -/
  boundaryPointers : ∀ v ∈ r.boundaryPointers, v ∈ r'.boundaryPointers
  /-- A call site on some path is still on one. -/
  exposedCallSites : ∀ s ∈ r.exposedCallSites, s ∈ r'.exposedCallSites
  /-- An entry is still one. -/
  entries : ∀ s ∈ r.entries, s ∈ r'.entries
  /-- A call site in a context is still in one. -/
  heapMoves : ∀ s ∈ r.heapMoves, s ∈ r'.heapMoves
  /-- A known callee is still known. -/
  callees : ∀ s F, r.callees.get? s = some F → r'.callees.get? s = some F
  /-- An edge is still there. -/
  outward : ∀ i o, g.Outward i o → g'.Outward i o
  /-- The functions that are entered through a call of unknown target are still noted. -/
  indirectTargets : ∀ s targets, r.indirectTargets.get? s = some targets →
    ∃ targets', r'.indirectTargets.get? s = some targets' ∧ ∀ F ∈ targets, F ∈ targets'
  /-- An exempt call site is still exempt, or has become an entry. -/
  entries_or_exempt : ∀ s, s ∈ r.entries ∨ s ∈ r.exempt → s ∈ r'.entries ∨ s ∈ r'.exempt
  /-- Every flag record is kept. -/
  records : ∀ F record, g.record? F = some record →
    ∃ record', g'.record? F = some record' ∧ record.KeptBy record'

/-- A run on facts that extend others finds all that the run on the others finds, and gives every
call site the same flag bit. -/
theorem keepsFindings_of_extendedBy {r r' : Report} (hext : facts.ExtendedBy facts')
    (hr : p.analyse config facts = .ok r) (hr' : p.analyse config facts' = .ok r') :
    ∃ c c' g g', TwoRuns p config facts facts' c c' g g' ∧ KeepsFindings r r' g g' := by
  obtain ⟨c, g, plan, hc, hg, -, heq⟩ := Program.stages_of_analyse hr
  obtain ⟨c', g', plan', hc', hg', -, heq'⟩ := Program.stages_of_analyse hr'
  have hruns : TwoRuns p config facts facts' c c' g g' := ⟨hc, hc', hg, hg'⟩
  have hshows := showsGraph_of_analyse hr hc hg
  have hshows' := showsGraph_of_analyse hr' hc' hg'
  refine ⟨c, c', g, g', hruns, ?_⟩
  constructor
  · rw [heq, heq']
    exact fun alloca reasons hfound => hruns.reasons_mono hext hfound
  · rw [heq, heq']
    intro v hv
    exact (Classification.mem_boundaryPointers_ofFacts hc').2
      ((Classification.mem_boundaryPointers_ofFacts hc).1 hv)
  · intro s hs
    rw [hshows.mem_exposedCallSites_iff] at hs
    exact (hshows'.mem_exposedCallSites_iff s).2 (hruns.contains_mono hext hs)
  · rw [hshows.entries_eq, hshows'.entries_eq]
    exact fun s hs => hruns.entries_mono hext hs
  · rw [hshows.heapMoves_eq, hshows'.heapMoves_eq]
    exact fun s hs => hruns.heapMoves_mono hext hs
  · intro s F hs
    rw [hshows.get?_callees] at hs
    rw [hshows'.get?_callees]
    exact hruns.callee?_mono hext hs
  · exact fun i o hedge => hruns.outward_mono hext hedge
  · rw [hshows.indirectTargets_eq, hshows'.indirectTargets_eq]
    exact fun s targets hfound => hruns.indirectTargets_mono hext hfound
  · rw [hshows.entries_eq, hshows'.entries_eq, hshows.exempt_eq, hshows'.exempt_eq]
    rintro s (hs | hs)
    · exact Or.inl (hruns.entries_mono hext hs)
    · exact hruns.mem_entries_or_exempt hext hs
  · exact fun F record hrecord => hruns.record_kept hext hrecord

/-- More facts about the exchange: the place that asks also asks for itself, and the second stack
slot is tainted too. -/
def moreExchangeFacts : Facts where
  reachableAllocations := [⟨⟨3⟩, [⟨4⟩]⟩, ⟨⟨3⟩, []⟩, ⟨⟨4⟩, [⟨3⟩]⟩]
  taintedStackObjects := [⟨1⟩, ⟨2⟩, ⟨1⟩]
  pointsTo := OrderedMap.ofList
    [(⟨0⟩, [⟨⟨0⟩, .stack ⟨1⟩⟩, ⟨⟨1⟩, .stack ⟨2⟩⟩, ⟨⟨2⟩, .heap⟩])]

/-- What is found about the exchange is found again when there are more facts about it. -/
theorem keepsFindings_exchange : exchangeFacts.ExtendedBy moreExchangeFacts ∧
    ∃ r r', exchange.analyse .standard exchangeFacts = .ok r ∧
      exchange.analyse .standard moreExchangeFacts = .ok r' ∧
      ∃ c c' g g', TwoRuns exchange .standard exchangeFacts moreExchangeFacts c c' g g' ∧
        KeepsFindings r r' g g' := by
  have hext : exchangeFacts.ExtendedBy moreExchangeFacts := by
    refine ⟨⟨[⟨⟨4⟩, [⟨3⟩]⟩], rfl⟩, ⟨[⟨1⟩], rfl⟩, fun value => ?_⟩
    simp only [Facts.objects, exchangeFacts, moreExchangeFacts, OrderedMap.ofList,
      List.foldl_cons, List.foldl_nil, OrderedMap.get?_insert, OrderedMap.get?_empty]
    split
    · exact ⟨[⟨⟨2⟩, .heap⟩], rfl⟩
    · exact List.prefix_rfl
  obtain ⟨r, hr⟩ : ∃ r, exchange.analyse .standard exchangeFacts = .ok r := ⟨_, rfl⟩
  obtain ⟨r', hr'⟩ : ∃ r', exchange.analyse .standard moreExchangeFacts = .ok r' := ⟨_, rfl⟩
  exact ⟨hext, r, r', hr, hr', keepsFindings_of_extendedBy hext hr hr'⟩

end HeapDomains
