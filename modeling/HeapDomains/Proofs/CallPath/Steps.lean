import HeapDomains.Proofs.CallPath.Graph

/-!
# Graphs that are made step by step

Call-path graphs are not only made by the builder: nodes, edges, bits, entries and notes can be
added in any order, whether they fit together or not. `GraphStep` lists what can be done to a graph,
and `ofSteps` does it one after the other, where a step that fails leaves behind what the graph is
then. What every step keeps holds of all these graphs (`ofSteps_invariant`); so does that records
are found under their own functions and give each call site one bit (`recordsAligned_ofSteps`).
-/

namespace HeapDomains

/-- Something that can be done to a call-path graph. -/
inductive GraphStep where
  /-- A call site gets a node. -/
  | ensureNode (site : InstId) (function : FunctionId)
  /-- An edge is added outwards. -/
  | link (inner outer : InstId)
  /-- A call site gets a flag bit in the record of a function. -/
  | assign (function : FunctionId) (site : InstId) (max : UInt32)
  /-- A call site raises one more bit. -/
  | addArgBit (function : FunctionId) (site : InstId) (bit : Nat)
  /-- A call site becomes an entry. -/
  | markEntry (site : InstId)
  /-- The exempt call sites are replaced. -/
  | setExempt (sites : OrderedSet InstId)
  /-- A known callee is noted. -/
  | recordCallee (site : InstId) (callee : FunctionId)
  /-- A target of a call of unknown target is noted. -/
  | recordIndirectTarget (site : InstId) (target : FunctionId)
  /-- A call site is noted to occur in a calling context. -/
  | markHeapMove (site : InstId)

namespace CallPathGraph

/-- The graph after a step. An edge that cannot be added changes nothing; a call site that gets no
bit leaves the record of the function behind. -/
def apply (g : CallPathGraph) : GraphStep → CallPathGraph
  | .ensureNode site function => (g.ensureNode site function).1
  | .link inner outer =>
    match g.link inner outer with
    | .ok g' => g'
    | .error _ => g
  | .assign function site max => (g.assign function site max).1
  | .addArgBit function site bit => g.addArgBit function site bit
  | .markEntry site => g.markEntry site
  | .setExempt sites => g.setExempt sites
  | .recordCallee site callee => g.recordCallee site callee
  | .recordIndirectTarget site target => g.recordIndirectTarget site target
  | .markHeapMove site => g.markHeapMove site

/-- The graph that steps make of the empty one. -/
def ofSteps (steps : List GraphStep) : CallPathGraph := steps.foldl apply empty

variable {g : CallPathGraph} {steps : List GraphStep} {F : FunctionId} {r : FlagRecord}

/-- What holds of the empty graph and is kept by every step holds of every graph made by steps. -/
theorem ofSteps_invariant {P : CallPathGraph → Prop} (hempty : P empty)
    (hstep : ∀ g step, P g → P (g.apply step)) : P (ofSteps steps) := by
  suffices hgen : ∀ g, P g → P (steps.foldl apply g) from hgen empty hempty
  induction steps with
  | nil => exact fun _ hg => hg
  | cons step rest ih => exact fun g hg => ih (g.apply step) (hstep g step hg)

/-- Records are found under their own functions, and list no call site twice. -/
structure RecordsAligned (g : CallPathGraph) : Prop where
  /-- A record is found under its own function. -/
  record_function : ∀ {F r}, g.record? F = some r → r.function = F
  /-- A record lists no call site twice. -/
  record_nodup : ∀ {F r}, g.record? F = some r → r.callSites.Nodup

namespace RecordsAligned

/-- Without records there is nothing to align. -/
theorem empty : RecordsAligned CallPathGraph.empty where
  record_function h := by simp [CallPathGraph.empty, record?] at h
  record_nodup h := by simp [CallPathGraph.empty, record?] at h

/-- Steps that leave the records alone keep them aligned. -/
theorem congr {g' : CallPathGraph} (hg : RecordsAligned g) (h : g'.records = g.records) :
    RecordsAligned g' where
  record_function hr := hg.record_function (by rwa [record?, h] at hr)
  record_nodup hr := hg.record_nodup (by rwa [record?, h] at hr)

/-- The record that a step starts from, which may be new, is aligned. -/
theorem recordOrNew (hg : RecordsAligned g) (F : FunctionId) :
    (g.recordOrNew F).function = F ∧ (g.recordOrNew F).callSites.Nodup := by
  unfold CallPathGraph.recordOrNew
  cases hr : g.record? F with
  | none => exact ⟨rfl, List.nodup_nil⟩
  | some r => exact ⟨hg.record_function hr, hg.record_nodup hr⟩

/-- A record of the function that lists no call site twice can take the place of another one. -/
theorem setRecord (hg : RecordsAligned g) (hfunction : r.function = F)
    (hnodup : r.callSites.Nodup) : RecordsAligned (g.setRecord F r) := by
  have hrecord : ∀ {F' r'}, (g.setRecord F r).record? F' = some r' →
      (F' = F ∧ r' = r) ∨ g.record? F' = some r' := by
    intro F' r' hr'
    rw [CallPathGraph.setRecord, record?, OrderedMap.get?_insert] at hr'
    split at hr'
    · rename_i hF
      exact Or.inl ⟨rank_eq_iff.1 hF, (Option.some.inj hr').symm⟩
    · exact Or.inr hr'
  constructor
  · intro F' r' hr'
    rcases hrecord hr' with ⟨rfl, rfl⟩ | hr'
    · exact hfunction
    · exact hg.record_function hr'
  · intro F' r' hr'
    rcases hrecord hr' with ⟨rfl, rfl⟩ | hr'
    · exact hnodup
    · exact hg.record_nodup hr'

/-- Giving out a bit keeps records aligned, also when no bit is left. -/
theorem assign (hg : RecordsAligned g) (F : FunctionId) (site : InstId) (max : UInt32) :
    RecordsAligned (g.assign F site max).1 := by
  obtain ⟨hfunction, hnodup⟩ := hg.recordOrNew F
  unfold CallPathGraph.assign
  split
  · rename_i r bit hassign
    have hr : r.function = F := (FlagRecord.argBits_assign hassign).1.trans hfunction
    exact hg.setRecord hr (FlagRecord.nodup_assign hassign hnodup)
  · exact hg.setRecord hfunction hnodup

/-- Every step keeps records aligned. -/
theorem apply (hg : RecordsAligned g) (step : GraphStep) : RecordsAligned (g.apply step) := by
  cases step with
  | ensureNode site function =>
    refine hg.congr ?_
    rw [CallPathGraph.apply, ensureNode_eq]
  | link inner outer =>
    rw [CallPathGraph.apply]
    split
    · rename_i g' hlink
      refine hg.congr ?_
      rw [(link_ok hlink).2]
    · exact hg
  | assign F site max => exact hg.assign F site max
  | addArgBit F site bit =>
    obtain ⟨hfunction, hnodup⟩ := hg.recordOrNew F
    exact hg.setRecord hfunction hnodup
  | markEntry site => exact hg.congr rfl
  | setExempt sites => exact hg.congr rfl
  | recordCallee site callee => exact hg.congr rfl
  | recordIndirectTarget site target => exact hg.congr rfl
  | markHeapMove site => exact hg.congr rfl

end RecordsAligned

/-- In a graph that steps have made, records are aligned. -/
theorem recordsAligned_ofSteps : RecordsAligned (ofSteps steps) :=
  ofSteps_invariant RecordsAligned.empty fun _ step hg => hg.apply step

/-! ## Edges -/

/-- The edges of a graph join call sites with a node. -/
def EdgesJoinNodes (g : CallPathGraph) : Prop :=
  ∀ i o, g.Outward i o → g.contains i = true ∧ g.contains o = true

namespace EdgesJoinNodes

variable {g' : CallPathGraph}

/-- Without edges there is nothing to join. -/
theorem empty : EdgesJoinNodes CallPathGraph.empty := by
  intro i o hedge
  simp [Outward, CallPathGraph.empty] at hedge

/-- More nodes without more edges leave edges between call sites with a node. -/
theorem mono (hg : EdgesJoinNodes g) (hnodes : ∀ n ∈ g.nodes, n ∈ g'.nodes)
    (hedges : g'.edges = g.edges) : EdgesJoinNodes g' := by
  have hcontains : ∀ s, g.contains s = true → g'.contains s = true := by
    intro s hs
    obtain ⟨n, hn, rfl⟩ := contains_iff.1 hs
    exact contains_iff.2 ⟨n, hnodes n hn, rfl⟩
  intro i o hedge
  rw [Outward, hedges] at hedge
  obtain ⟨hi, ho⟩ := hg i o hedge
  exact ⟨hcontains i hi, hcontains o ho⟩

/-- An edge that is added joins call sites with a node. -/
theorem link {inner outer : InstId} (hg : EdgesJoinNodes g) (h : g.link inner outer = .ok g') :
    EdgesJoinNodes g' := by
  obtain ⟨hedges, heq⟩ := link_ok h
  have hcontains : ∀ s, g'.contains s = g.contains s := fun s => by rw [heq]; rfl
  intro i o hedge
  rw [hcontains, hcontains]
  rcases (hedges i o).1 hedge with hedge | ⟨rfl, rfl⟩
  · exact hg i o hedge
  · exact contains_of_link h

/-- Giving out a bit adds neither nodes nor edges. -/
theorem assign (hg : EdgesJoinNodes g) (F : FunctionId) (site : InstId) (max : UInt32) :
    EdgesJoinNodes (g.assign F site max).1 := by
  unfold CallPathGraph.assign
  split
  · exact hg.mono (fun _ hn => hn) rfl
  · exact hg.mono (fun _ hn => hn) rfl

/-- After every step, edges join call sites with a node. -/
theorem apply (hg : EdgesJoinNodes g) (step : GraphStep) : EdgesJoinNodes (g.apply step) := by
  cases step with
  | ensureNode site function =>
    rw [CallPathGraph.apply, ensureNode_eq]
    refine hg.mono (fun n hn => ?_) rfl
    dsimp only
    split
    · exact hn
    · exact List.mem_append_left _ hn
  | link inner outer =>
    rw [CallPathGraph.apply]
    split
    · next g' hlink => exact hg.link hlink
    · exact hg
  | assign F site max => exact hg.assign F site max
  | addArgBit F site bit => exact hg.mono (fun _ hn => hn) rfl
  | markEntry site => exact hg.mono (fun _ hn => hn) rfl
  | setExempt sites => exact hg.mono (fun _ hn => hn) rfl
  | recordCallee site callee => exact hg.mono (fun _ hn => hn) rfl
  | recordIndirectTarget site target => exact hg.mono (fun _ hn => hn) rfl
  | markHeapMove site => exact hg.mono (fun _ hn => hn) rfl

end EdgesJoinNodes

/-- In a graph that steps have made, edges join call sites with a node. -/
theorem edgesJoinNodes_ofSteps : EdgesJoinNodes (ofSteps steps) :=
  ofSteps_invariant EdgesJoinNodes.empty fun _ step hg => hg.apply step

end CallPathGraph

end HeapDomains
