import HeapDomains.Proofs.CallPath.Paths

/-!
# What a graph notes of calls

Besides nodes, edges and entries a graph notes which call sites occur in a context, what call sites
are known to call, and which functions are entered through a call of unknown target. `NotesCalls`
says that these notes follow from nodes and edges; the builder makes each note in the same step as
the node or the edge, so this holds all along a walk. Together with the paths that a graph is made
of, `showsPaths_of_build` says of every part of a graph that is built which reports it comes from.
-/

namespace HeapDomains

/-- The elements of a list after the first one are those with a neighbour before them. -/
theorem mem_tail_iff_exists_pair {α : Type} {l : List α} {b : α} (x : α) :
    b ∈ l ↔ ∃ a, [a, b] <:+: x :: l := by
  constructor
  · intro hb
    obtain ⟨before, after, rfl⟩ := List.mem_iff_append.1 hb
    -- What stands before the element is not empty, since the list starts with another one.
    obtain ⟨start, a, hlast⟩ := List.eq_nil_or_concat (x :: before) |>.resolve_left (by simp)
    refine ⟨a, start, after, ?_⟩
    rw [← List.cons_append, hlast]
    simp
  · rintro ⟨a, before, after, h⟩
    cases before with
    | nil =>
      obtain ⟨-, rfl⟩ := List.cons.inj h
      simp
    | cons first before =>
      obtain ⟨-, rfl⟩ := List.cons.inj h
      simp

namespace CallPathGraph

/-- The functions that are entered through a call site of unknown target. -/
def targetsOf (g : CallPathGraph) (site : InstId) : OrderedSet FunctionId :=
  (g.indirectTargets.get? site).getD OrderedSet.empty

variable {p : Program} {config : PassConfig} {facts : Facts} {c : Classification} {max : UInt32}
  {g g' : CallPathGraph} {site inner outer : CallSite} {s i o : InstId} {b : Nat} {F : FunctionId}
  {done : List AllocationSite} {path : List InstId} {position : Option CallSite}

/-! ## Nodes and edges without repetition -/

/-- Registration does not repeat a node. -/
theorem nodup_nodes_register (h : g.register max site b = .ok g')
    (hnodup : (g.nodes.map (·.callSite)).Nodup) : (g'.nodes.map (·.callSite)).Nodup := by
  obtain ⟨-, -, -, -, heq⟩ := register_ok h
  rw [heq]
  dsimp only
  split
  · exact hnodup
  · rename_i hnew
    rw [List.map_append, List.nodup_append]
    refine ⟨hnodup, List.nodup_singleton _, fun x hx y hy hxy => hnew ?_⟩
    obtain ⟨n, hn, rfl⟩ := List.mem_map.1 hx
    exact contains_iff.2 ⟨n, hn, hxy.trans (List.mem_singleton.1 hy)⟩

/-- Adding an edge does not repeat one. -/
theorem nodup_edges_link (h : g.link i o = .ok g') (hnodup : g.edges.Nodup) : g'.edges.Nodup := by
  rw [link, bind_eq_ok] at h
  obtain ⟨_, -, h⟩ := h
  rw [bind_eq_ok] at h
  obtain ⟨_, -, h⟩ := h
  split at h
  · obtain rfl := Except.ok.inj h
    exact hnodup
  · rename_i hnew
    obtain rfl := Except.ok.inj h
    rw [List.nodup_append]
    refine ⟨hnodup, List.nodup_singleton _, fun x hx y hy hxy => hnew ?_⟩
    rwa [← List.mem_singleton.1 hy, ← hxy]

/-- All along a walk no call site has two nodes. -/
theorem Walk.nodup_nodes (h : Walk p max done path position g) :
    (g.nodes.map (·.callSite)).Nodup := by
  induction h with
  | empty => exact List.nodup_nil
  | start _ _ hregister ih =>
    have hnodup := nodup_nodes_register hregister ih
    rw [recordAllocator_eq]
    exact hnodup
  | level _ _ hlevel ih =>
    obtain ⟨g₁, hregister, hnodes, -⟩ := addLevel_ok hlevel
    rw [hnodes]
    exact nodup_nodes_register hregister ih
  | finish _ ih => exact ih

/-- All along a walk no edge is there twice. -/
theorem Walk.nodup_edges (h : Walk p max done path position g) : g.edges.Nodup := by
  induction h with
  | empty => exact List.nodup_nil
  | start _ _ hregister ih =>
    obtain ⟨-, -, -, -, heq⟩ := register_ok hregister
    rw [recordAllocator_eq, heq]
    exact ih
  | level _ _ hlevel ih =>
    obtain ⟨g₁, g₂, hregister, hlink, rfl⟩ := addLevel_steps hlevel
    obtain ⟨-, -, -, -, heq⟩ := register_ok hregister
    have hnodup : g₂.edges.Nodup := nodup_edges_link hlink (by rw [heq]; exact ih)
    rw [recordCall_eq]
    exact hnodup
  | finish _ ih => exact ih

/-! ## Notes of a step -/

/-- Adding a level notes that the outer call site occurs in a context, and what it calls. -/
theorem notes_addLevel (h : g.addLevel max inner outer = .ok g') :
    g'.heapMoves = g.heapMoves.insert outer.id ∧
      g'.callees = (g.recordAllocator outer).callees ∧
      g'.indirectTargets = (g.recordCall inner outer).indirectTargets := by
  obtain ⟨g₁, g₂, hregister, hlink, rfl⟩ := addLevel_steps h
  obtain ⟨-, -, -, -, heq₁⟩ := register_ok hregister
  obtain ⟨-, heq₂⟩ := link_ok hlink
  rw [heq₂, heq₁]
  unfold recordCall recordAllocator CallSite.callee? CallTarget.callee?
  cases outer.target with
  | direct callee => exact ⟨rfl, rfl, rfl⟩
  | indirect => exact ⟨rfl, rfl, rfl⟩

/-- A known callee is noted afterwards if it is that of the call site or was noted before, where
nothing else was noted for the call site. -/
theorem callee?_recordAllocator (h : ∀ F, g.callee? site.id = some F → site.target = .direct F) :
    (g.recordAllocator site).callee? s = some F ↔
      (s = site.id ∧ site.target = .direct F) ∨ g.callee? s = some F := by
  unfold recordAllocator CallSite.callee? CallTarget.callee?
  cases htarget : site.target with
  | direct callee =>
    rw [htarget] at h
    by_cases hs : s = site.id
    · subst hs
      have hnew : (g.recordCallee site.id callee).callee? site.id = some callee :=
        OrderedMap.get?_insert.trans (if_pos rfl)
      rw [hnew]
      constructor
      · rintro hF
        exact Or.inl ⟨rfl, congrArg _ (Option.some.inj hF)⟩
      · rintro (⟨-, hF⟩ | hF)
        · exact congrArg _ (CallTarget.direct.inj hF)
        · exact congrArg _ (CallTarget.direct.inj (h F hF))
    · have hold : (g.recordCallee site.id callee).callee? s = g.callee? s :=
        OrderedMap.get?_insert.trans (if_neg fun hrank => hs (rank_eq_iff.1 hrank))
      rw [hold]
      simp [hs]
  | indirect => simp

/-- A function is noted afterwards as entered through a call site of unknown target if the call is
the one that is recorded, or if it was noted before. -/
theorem mem_targetsOf_recordCall :
    F ∈ (g.recordCall inner outer).targetsOf s ↔
      (s = outer.id ∧ outer.target = .indirect ∧ F = inner.function) ∨ F ∈ g.targetsOf s := by
  unfold recordCall
  cases outer.target with
  | direct callee => simp [recordCallee, targetsOf]
  | indirect =>
    unfold recordIndirectTarget targetsOf
    rw [OrderedMap.get?_modify]
    by_cases hs : s = outer.id
    · rw [if_pos (rank_eq_iff.2 hs), Option.getD_some, OrderedSet.mem_insert, hs]
      simp
    · rw [if_neg fun hrank => hs (rank_eq_iff.1 hrank)]
      simp [hs]

/-- A call site has a note of the functions entered through it afterwards if it is the one that is
recorded, or if it had one before. -/
theorem isSome_indirectTargets_recordCall :
    ((g.recordCall inner outer).indirectTargets.get? s).isSome = true ↔
      (s = outer.id ∧ outer.target = .indirect) ∨ (g.indirectTargets.get? s).isSome = true := by
  unfold recordCall
  cases outer.target with
  | direct callee => simp [recordCallee]
  | indirect =>
    unfold recordIndirectTarget
    rw [OrderedMap.get?_modify]
    by_cases hs : s = outer.id
    · rw [if_pos (rank_eq_iff.2 hs)]
      simp [hs]
    · rw [if_neg fun hrank => hs (rank_eq_iff.1 hrank)]
      simp [hs]

/-! ## The invariant -/

/-- What a graph notes of calls follows from its nodes and edges. -/
structure NotesCalls (p : Program) (g : CallPathGraph) : Prop where
  /-- The call sites in contexts are those with an inner neighbour. -/
  mem_heapMoves_iff : ∀ {s}, s ∈ g.heapMoves ↔ ∃ i, g.Outward i s
  /-- The known callees are those of the direct calls among the nodes. -/
  callee?_iff : ∀ {s F}, g.callee? s = some F ↔
    g.contains s = true ∧ ∃ site, p.callSite s = .ok site ∧ site.target = .direct F
  /-- The functions entered through an indirect call are those of its inner neighbours. -/
  mem_targetsOf_iff : ∀ {s F}, F ∈ g.targetsOf s ↔
    (∃ site, p.callSite s = .ok site ∧ site.target = .indirect) ∧
      ∃ i inner, g.Outward i s ∧ p.callSite i = .ok inner ∧ inner.function = F
  /-- A call site for which such functions are noted has one. -/
  exists_mem_targetsOf : ∀ {s}, (g.indirectTargets.get? s).isSome = true → ∃ F, F ∈ g.targetsOf s

namespace NotesCalls

/-- Nothing is noted where there is no node. -/
theorem empty : NotesCalls p CallPathGraph.empty where
  mem_heapMoves_iff := by simp [CallPathGraph.empty, Outward]
  callee?_iff := by simp [CallPathGraph.empty, callee?, contains_iff]
  mem_targetsOf_iff := by simp [CallPathGraph.empty, Outward, targetsOf]
  exists_mem_targetsOf h := by simp [CallPathGraph.empty] at h

/-- A node that is added together with a note of its callee keeps the notes of callees right. -/
theorem callee?_iff_of_added (hg : NotesCalls p g) (hsite : p.callSite site.id = .ok site)
    (hcontains : ∀ s, g'.contains s = true ↔ s = site.id ∨ g.contains s = true)
    (hcallees : g'.callees = (g.recordAllocator site).callees) :
    g'.callee? s = some F ↔
      g'.contains s = true ∧ ∃ found, p.callSite s = .ok found ∧ found.target = .direct F := by
  have hnoted : ∀ F, g.callee? site.id = some F → site.target = .direct F := by
    intro F hF
    obtain ⟨-, found, hfound, htarget⟩ := hg.callee?_iff.1 hF
    rwa [Except.ok.inj (hsite.symm.trans hfound)]
  have hcallee : g'.callee? s = (g.recordAllocator site).callee? s := by
    rw [callee?, callee?, hcallees]
  rw [hcallee, callee?_recordAllocator hnoted, hg.callee?_iff, hcontains]
  constructor
  · rintro (⟨rfl, htarget⟩ | ⟨hs, hfound⟩)
    · exact ⟨Or.inl rfl, site, hsite, htarget⟩
    · exact ⟨Or.inr hs, hfound⟩
  · rintro ⟨rfl | hs, found, hfound, htarget⟩
    · obtain rfl : site = found := Except.ok.inj (hsite.symm.trans hfound)
      exact Or.inl ⟨rfl, htarget⟩
    · exact Or.inr ⟨hs, found, hfound, htarget⟩

/-- Starting a path keeps the notes right. -/
theorem start (hreg : Registry p max g) (hg : NotesCalls p g)
    (hsite : p.callSite site.id = .ok site) (h : g.register max site 0 = .ok g') :
    NotesCalls p (g'.recordAllocator site) := by
  obtain ⟨-, -, -, -, heq⟩ := register_ok h
  -- Registration leaves edges and notes alone, and a callee is all that is noted.
  have hedges : ∀ i s, (g'.recordAllocator site).Outward i s ↔ g.Outward i s := by
    intro i s
    rw [recordAllocator_eq, heq]
    rfl
  have htargets : (g'.recordAllocator site).indirectTargets = g.indirectTargets := by
    rw [recordAllocator_eq, heq]
  have hcontains : ∀ s, (g'.recordAllocator site).contains s = true ↔
      s = site.id ∨ g.contains s = true := by
    intro s
    rw [← hreg.contains_register hsite h, recordAllocator_eq, contains_iff, contains_iff]
  have hcallees : (g'.recordAllocator site).callees = (g.recordAllocator site).callees := by
    rw [heq]
    unfold recordAllocator
    cases site.callee? with
    | some callee => rfl
    | none => rfl
  constructor
  · intro s
    simp only [hedges]
    rw [recordAllocator_eq, heq]
    exact hg.mem_heapMoves_iff
  · exact hg.callee?_iff_of_added hsite hcontains hcallees
  · intro s F
    rw [targetsOf, htargets, ← targetsOf, hg.mem_targetsOf_iff]
    simp only [hedges]
  · intro s
    rw [targetsOf, htargets, ← targetsOf]
    exact hg.exists_mem_targetsOf

/-- Adding a level keeps the notes right. -/
theorem level (hreg : Registry p max g) (hg : NotesCalls p g)
    (hinner : p.callSite inner.id = .ok inner) (houter : p.callSite outer.id = .ok outer)
    (h : g.addLevel max inner outer = .ok g') : NotesCalls p g' := by
  obtain ⟨g₁, hregister, hnodes, -, -, hedges⟩ := addLevel_ok h
  obtain ⟨hmoves, hcallees, htargets⟩ := notes_addLevel h
  have hedges' : ∀ i s, g'.Outward i s ↔ g.Outward i s ∨ (i = inner.id ∧ s = outer.id) :=
    fun i s => by rw [hedges, outward_register hregister]
  have hcontains : ∀ s, g'.contains s = true ↔ s = outer.id ∨ g.contains s = true := fun s => by
    rw [contains_iff, hnodes, ← contains_iff, hreg.contains_register houter hregister]
  constructor
  · intro s
    rw [hmoves, OrderedSet.mem_insert, hg.mem_heapMoves_iff]
    simp only [hedges', exists_or, exists_and_right, exists_eq, true_and]
    exact or_comm
  · exact hg.callee?_iff_of_added houter hcontains hcallees
  · intro s F
    rw [targetsOf, htargets, ← targetsOf, mem_targetsOf_recordCall, hg.mem_targetsOf_iff]
    simp only [hedges']
    constructor
    · rintro (⟨rfl, htarget, rfl⟩ | ⟨hsite, i, found, hedge, hi, hF⟩)
      · exact ⟨⟨outer, houter, htarget⟩, inner.id, inner, Or.inr ⟨rfl, rfl⟩, hinner, rfl⟩
      · exact ⟨hsite, i, found, Or.inl hedge, hi, hF⟩
    · rintro ⟨hsite, i, found, hedge | ⟨rfl, rfl⟩, hi, hF⟩
      · exact Or.inr ⟨hsite, i, found, hedge, hi, hF⟩
      -- The edge that is added is the one from the call site that is recorded.
      · obtain ⟨known, hknown, htarget⟩ := hsite
        obtain rfl : outer = known := Except.ok.inj (houter.symm.trans hknown)
        obtain rfl : inner = found := Except.ok.inj (hinner.symm.trans hi)
        exact Or.inl ⟨rfl, htarget, hF.symm⟩
  · intro s hs
    rw [htargets, isSome_indirectTargets_recordCall] at hs
    rw [targetsOf, htargets, ← targetsOf]
    simp only [mem_targetsOf_recordCall]
    rcases hs with ⟨hs, htarget⟩ | hs
    · exact ⟨inner.function, Or.inl ⟨hs, htarget, rfl⟩⟩
    · obtain ⟨F, hF⟩ := hg.exists_mem_targetsOf hs
      exact ⟨F, Or.inr hF⟩

end NotesCalls

/-- All along a walk the notes are right. -/
theorem Walk.notesCalls (h : Walk p max done path position g) : NotesCalls p g := by
  induction h with
  | empty => exact NotesCalls.empty
  | start hwalk hs hregister ih =>
    exact ih.start hwalk.registry (Program.callSite_self hs) hregister
  | level hwalk hs hlevel ih =>
    exact ih.level hwalk.registry hwalk.getLast?.2 (Program.callSite_self hs) hlevel
  | finish _ ih => exact ⟨ih.mem_heapMoves_iff, ih.callee?_iff, ih.mem_targetsOf_iff,
      ih.exists_mem_targetsOf⟩

/-! ## Built graphs -/

/-- A graph that is built notes what follows from its nodes and edges. -/
theorem notesCalls_of_build (h : build p config c = .ok g) : NotesCalls p g := by
  obtain ⟨g₀, hwalk, rfl⟩ := walk_of_build h
  have hnotes := hwalk.notesCalls
  rw [exemptBy_eq]
  exact ⟨hnotes.mem_heapMoves_iff, hnotes.callee?_iff, hnotes.mem_targetsOf_iff,
    hnotes.exists_mem_targetsOf⟩

/-- A graph that is built repeats neither nodes nor edges. -/
theorem nodup_of_build (h : build p config c = .ok g) :
    (g.nodes.map (·.callSite)).Nodup ∧ g.edges.Nodup := by
  obtain ⟨g₀, hwalk, rfl⟩ := walk_of_build h
  have hnodes := hwalk.nodup_nodes
  have hedges := hwalk.nodup_edges
  rw [exemptBy_eq]
  exact ⟨hnodes, hedges⟩

/-- The heap moves of a graph that is built are the call sites in reported contexts. -/
theorem mem_heapMoves_iff_reported (hc : Classification.ofFacts p facts = .ok c)
    (h : build p config c = .ok g) :
    s ∈ g.heapMoves ↔ ∃ report ∈ facts.reachableAllocations, s ∈ report.context := by
  simp only [(notesCalls_of_build h).mem_heapMoves_iff, outward_iff_reported hc h]
  constructor
  · rintro ⟨i, report, hreport, hpair⟩
    exact ⟨report, hreport, (mem_tail_iff_exists_pair report.location).2 ⟨i, hpair⟩⟩
  · rintro ⟨report, hreport, hs⟩
    obtain ⟨i, hpair⟩ := (mem_tail_iff_exists_pair report.location).1 hs
    exact ⟨i, report, hreport, hpair⟩

/-- In a graph that is built indirect targets are noted for the indirect calls in contexts. -/
theorem isSome_indirectTargets_iff_heapMove (h : build p config c = .ok g) :
    (g.indirectTargets.get? s).isSome = true ↔
      s ∈ g.heapMoves ∧ ∃ site, p.callSite s = .ok site ∧ site.target = .indirect := by
  have hnotes := notesCalls_of_build h
  rw [hnotes.mem_heapMoves_iff]
  constructor
  · intro hs
    obtain ⟨F, hF⟩ := hnotes.exists_mem_targetsOf hs
    obtain ⟨hsite, i, inner, hedge, -⟩ := hnotes.mem_targetsOf_iff.1 hF
    exact ⟨⟨i, hedge⟩, hsite⟩
  · rintro ⟨⟨i, hedge⟩, hsite⟩
    -- The inner neighbour is a call site of the program, so its function is a target.
    have hi := ((argBitsMirror_of_build h).contains_of_outward hedge).1
    obtain ⟨inner, hinner⟩ := (registry_of_build h).callSite_of_contains hi
    have hF := hnotes.mem_targetsOf_iff.2 ⟨hsite, i, inner, hedge, hinner, rfl⟩
    cases hget : g.indirectTargets.get? s with
    | none => simp [targetsOf, hget] at hF
    | some targets => rfl

/-- A graph is that of the reported paths, and notes of the calls on them what the program says. -/
structure ShowsPaths (p : Program) (facts : Facts) (g : CallPathGraph) : Prop where
  /-- No call site has two nodes. -/
  nodes_nodup : (g.nodes.map (·.callSite)).Nodup
  /-- The nodes are the call sites on reported paths. -/
  contains_iff : ∀ s, g.contains s = true ↔ ∃ report ∈ facts.reachableAllocations, s ∈ report.path
  /-- A node belongs to the function that its call is made from. -/
  function_of_node : ∀ s F, ⟨s, F⟩ ∈ g.nodes → ∃ site, p.callSite s = .ok site ∧ site.function = F
  /-- No edge is there twice. -/
  edges_nodup : g.edges.Nodup
  /-- The edges lead from a call site on a reported path to the next one. -/
  outward_iff : ∀ i o, g.Outward i o ↔
    ∃ report ∈ facts.reachableAllocations, [i, o] <:+: report.path
  /-- The entries are where reported paths end. -/
  mem_entries_iff : ∀ e, e ∈ g.entries ↔
    ∃ report ∈ facts.reachableAllocations, report.path.getLast? = some e
  /-- The heap moves are the call sites in contexts. -/
  mem_heapMoves_iff : ∀ s, s ∈ g.heapMoves ↔
    ∃ report ∈ facts.reachableAllocations, s ∈ report.context
  /-- They are the call sites with an inner neighbour. -/
  mem_heapMoves_iff_outward : ∀ s, s ∈ g.heapMoves ↔ ∃ i, g.Outward i s
  /-- The known callees are those of the direct calls among the nodes. -/
  callee?_iff : ∀ s F, g.callee? s = some F ↔
    g.contains s = true ∧ ∃ site, p.callSite s = .ok site ∧ site.target = .direct F
  /-- Indirect targets are noted for the indirect calls in contexts. -/
  isSome_indirectTargets_iff : ∀ s, (g.indirectTargets.get? s).isSome = true ↔
    (∃ report ∈ facts.reachableAllocations, s ∈ report.context) ∧
      ∃ site, p.callSite s = .ok site ∧ site.target = .indirect
  /-- They are the functions from which the inner neighbours are called. -/
  mem_indirectTargets_iff : ∀ s targets, g.indirectTargets.get? s = some targets → ∀ F,
    F ∈ targets ↔ ∃ i inner, g.Outward i s ∧ p.callSite i = .ok inner ∧ inner.function = F
  /-- No call site has both a known callee and indirect targets. -/
  callees_disjoint : ∀ s, s ∈ g.callees.keys → s ∉ g.indirectTargets.keys

/-- A graph that is built from a classification of facts is that of the reported paths. -/
theorem showsPaths_of_build (hc : Classification.ofFacts p facts = .ok c)
    (h : build p config c = .ok g) : ShowsPaths p facts g where
  nodes_nodup := (nodup_of_build h).1
  contains_iff s := contains_iff_reported hc h
  function_of_node s F := (registry_of_build h).callSite_of_node
  edges_nodup := (nodup_of_build h).2
  outward_iff i o := outward_iff_reported hc h
  mem_entries_iff e := mem_entries_iff_reported hc h
  mem_heapMoves_iff s := mem_heapMoves_iff_reported hc h
  mem_heapMoves_iff_outward s := (notesCalls_of_build h).mem_heapMoves_iff
  callee?_iff s F := (notesCalls_of_build h).callee?_iff
  isSome_indirectTargets_iff s := by
    rw [isSome_indirectTargets_iff_heapMove h, mem_heapMoves_iff_reported hc h]
  mem_indirectTargets_iff s targets hget F := by
    have hsome : (g.indirectTargets.get? s).isSome = true := by rw [hget]; rfl
    have hF := (notesCalls_of_build h).mem_targetsOf_iff (s := s) (F := F)
    rw [targetsOf, hget, Option.getD_some] at hF
    rw [hF]
    exact and_iff_right ((isSome_indirectTargets_iff_heapMove h).1 hsome).2
  callees_disjoint s hcallee htarget := by
    -- The call cannot be both direct and indirect.
    rw [OrderedMap.mem_keys_iff] at hcallee htarget
    obtain ⟨F, hF⟩ := Option.isSome_iff_exists.1 hcallee
    obtain ⟨-, site, hsite, hdirect⟩ := (notesCalls_of_build h).callee?_iff.1 hF
    obtain ⟨-, found, hfound, hindirect⟩ := (isSome_indirectTargets_iff_heapMove h).1 htarget
    rw [← Except.ok.inj (hsite.symm.trans hfound), hdirect] at hindirect
    simp at hindirect

end CallPathGraph

end HeapDomains
