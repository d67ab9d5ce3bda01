import HeapDomains.Proofs.CallPath.Registry
import HeapDomains.Proofs.Config

/-!
# Argument bits mirror edges

A call made at a call site has to raise the flag bits of the call sites one level further in, and
bit 0 when it allocates. The builder adds these bits one by one while records still grow, call sites
are shared between paths and a call site may stand next to itself; `ArgBitsMirror` is what all of
its steps keep: the argument bits of a call site are the bits of its inner neighbours, and 0 for a
location that is reported. `bitsMirrorEdges_of_build` puts this together with the registry, and adds
what follows for argument masks under a configuration that is accepted.
-/

namespace HeapDomains

namespace CallPathGraph

variable {p : Program} {config : PassConfig} {facts : Facts} {c : Classification} {max : UInt32}
  {g g' : CallPathGraph} {locations : List InstId} {site inner outer : CallSite} {s i : InstId}
  {b n : Nat}

/-- Registration leaves the edges as they are. -/
theorem outward_register (h : g.register max site b = .ok g') {i o : InstId} :
    g'.Outward i o ↔ g.Outward i o := by
  obtain ⟨-, -, -, -, heq⟩ := register_ok h
  rw [heq]
  rfl

/-- After registration the call site has a node, as have those from before. -/
theorem Registry.contains_register (hg : Registry p max g) (hsite : p.callSite site.id = .ok site)
    (h : g.register max site b = .ok g') :
    g'.contains s = true ↔ s = site.id ∨ g.contains s = true := by
  rw [contains_iff, contains_iff]
  simp only [hg.mem_nodes_register hsite h, or_and_right, exists_or, exists_eq_left]
  rw [eq_comm]

/-- Registration changes no bit of a call site that has a node. -/
theorem Registry.bit?_register_iff (hg : Registry p max g) (hi : g.contains i = true)
    (hinner : p.callSite i = .ok inner) (h : g.register max site b = .ok g') :
    g'.bit? inner = some n ↔ g.bit? inner = some n := by
  obtain ⟨m, hm⟩ := Option.isSome_iff_exists.1 ((hg.contains_iff_isSome_bit? hinner).1 hi)
  rw [hm, bit?_register h hm]

/-! ## The invariant -/

/-- The bits that the call sites of a graph raise are those of the call sites one level further in,
and bit 0 for the locations of the allocations. -/
structure ArgBitsMirror (p : Program) (locations : List InstId) (g : CallPathGraph) : Prop where
  /-- An edge leads from a node to a node. -/
  contains_of_outward : ∀ {i o}, g.Outward i o → g.contains i = true ∧ g.contains o = true
  /-- The argument bits of a call site are the bits of its inner neighbours, and 0 at a location. -/
  mem_argBits_iff : ∀ {s site}, p.callSite s = .ok site → ∀ {n}, n ∈ g.argBits site ↔
    (∃ i inner, g.Outward i s ∧ p.callSite i = .ok inner ∧ g.bit? inner = some n) ∨
      (n = 0 ∧ s ∈ locations)
  /-- A node is a location or has an inner neighbour. -/
  location_or_outward : ∀ {s}, g.contains s = true → s ∈ locations ∨ ∃ i, g.Outward i s

namespace ArgBitsMirror

/-- Nothing is raised where there is no node. -/
theorem empty : ArgBitsMirror p [] CallPathGraph.empty where
  contains_of_outward h := by simp [CallPathGraph.empty, Outward] at h
  mem_argBits_iff := by
    simp [CallPathGraph.empty, Outward, argBits, recordOrNew, record?, FlagRecord.new,
      FlagRecord.argBitsOf]
  location_or_outward h := by simp [contains_iff, CallPathGraph.empty] at h

/-- Steps that leave nodes, edges and records alone keep what the argument bits say. -/
theorem congr (hg : ArgBitsMirror p locations g) (hnodes : g'.nodes = g.nodes)
    (hedges : ∀ i o, g'.Outward i o ↔ g.Outward i o) (hrecords : g'.records = g.records) :
    ArgBitsMirror p locations g' := by
  have hcontains : ∀ s, g'.contains s = true ↔ g.contains s = true := fun s => by
    rw [contains_iff, contains_iff, hnodes]
  constructor
  · intro i o h
    rw [hcontains, hcontains]
    exact hg.contains_of_outward ((hedges i o).1 h)
  · intro s site hsite n
    rw [argBits_congr hrecords, hg.mem_argBits_iff hsite]
    simp only [hedges, bit?_congr hrecords]
  · intro s h
    simp only [hedges]
    exact hg.location_or_outward ((hcontains s).1 h)

/-- After registration the bits raised are the new one, those of the inner neighbours and those of
the locations; the neighbours have the bits from before. -/
theorem mem_argBits_register_iff (hreg : Registry p max g) (hg : ArgBitsMirror p locations g)
    (hsite : p.callSite site.id = .ok site) (h : g.register max site b = .ok g') {other : CallSite}
    (hother : p.callSite s = .ok other) : n ∈ g'.argBits other ↔ (s = site.id ∧ n = b) ∨
      (∃ i inner, g.Outward i s ∧ p.callSite i = .ok inner ∧ g'.bit? inner = some n) ∨
      (n = 0 ∧ s ∈ locations) := by
  have hid := Program.callSite_id hother
  -- A neighbour is a node already, so registration leaves its bit as it is.
  have hbit : ∀ {i inner}, g.Outward i s → p.callSite i = .ok inner →
      (g'.bit? inner = some n ↔ g.bit? inner = some n) := fun he hi =>
    hreg.bit?_register_iff (hg.contains_of_outward he).1 hi h
  rw [mem_argBits_register h hsite (Program.callSite_self hother), hg.mem_argBits_iff hother, hid]
  refine or_congr Iff.rfl (or_congr ⟨?_, ?_⟩ Iff.rfl)
  · rintro ⟨i, inner, he, hi, hb⟩
    exact ⟨i, inner, he, hi, (hbit he hi).2 hb⟩
  · rintro ⟨i, inner, he, hi, hb⟩
    exact ⟨i, inner, he, hi, (hbit he hi).1 hb⟩

/-- Registering an allocation, which raises bit 0, adds its location. -/
theorem start (hreg : Registry p max g) (hg : ArgBitsMirror p locations g)
    (hsite : p.callSite site.id = .ok site) (h : g.register max site 0 = .ok g') :
    ArgBitsMirror p (locations ++ [site.id]) g' := by
  constructor
  · intro i o hedge
    rw [outward_register h] at hedge
    obtain ⟨hi, ho⟩ := hg.contains_of_outward hedge
    rw [hreg.contains_register hsite h, hreg.contains_register hsite h]
    exact ⟨Or.inr hi, Or.inr ho⟩
  · intro s other hother n
    rw [mem_argBits_register_iff hreg hg hsite h hother, List.mem_append, List.mem_singleton]
    simp only [outward_register h]
    constructor
    · rintro (⟨hs, hn⟩ | hbit | ⟨hn, hloc⟩)
      · exact Or.inr ⟨hn, Or.inr hs⟩
      · exact Or.inl hbit
      · exact Or.inr ⟨hn, Or.inl hloc⟩
    · rintro (hbit | ⟨hn, hloc | hs⟩)
      · exact Or.inr (Or.inl hbit)
      · exact Or.inr (Or.inr ⟨hn, hloc⟩)
      · exact Or.inl ⟨hs, hn⟩
  · intro s hs
    simp only [outward_register h, List.mem_append, List.mem_singleton]
    rcases (hreg.contains_register hsite h).1 hs with rfl | hs
    · exact Or.inl (Or.inr rfl)
    · rcases hg.location_or_outward hs with hloc | hedge
      · exact Or.inl (Or.inl hloc)
      · exact Or.inr hedge

/-- Adding a level from a call site with a node makes the outer call site raise its bit, and makes
the two neighbours. -/
theorem level (hreg : Registry p max g) (hg : ArgBitsMirror p locations g)
    (hinner : p.callSite inner.id = .ok inner) (hnode : g.contains inner.id = true)
    (houter : p.callSite outer.id = .ok outer) (h : g.addLevel max inner outer = .ok g') :
    ArgBitsMirror p locations g' := by
  obtain ⟨g₁, hregister, hnodes, hrecords, -, hedges⟩ := addLevel_ok h
  have hcontains : ∀ s, g'.contains s = true ↔ s = outer.id ∨ g.contains s = true := fun s => by
    rw [contains_iff, hnodes, ← contains_iff, hreg.contains_register houter hregister]
  have hedges' : ∀ i o, g'.Outward i o ↔ g.Outward i o ∨ (i = inner.id ∧ o = outer.id) :=
    fun i o => by rw [hedges, outward_register hregister]
  -- The inner call site has a bit, so it is that bit which the outer one raises.
  obtain ⟨m, hm⟩ := Option.isSome_iff_exists.1 ((hreg.contains_iff_isSome_bit? hinner).1 hnode)
  have hbitOf : g.bitOf inner = m := by
    rw [bitOf, ← bit?, hm, Option.getD_some]
  have hbit := bit?_register hregister hm
  constructor
  · intro i o hedge
    rw [hcontains, hcontains]
    rcases (hedges' i o).1 hedge with hedge | ⟨rfl, rfl⟩
    · obtain ⟨hi, ho⟩ := hg.contains_of_outward hedge
      exact ⟨Or.inr hi, Or.inr ho⟩
    · exact ⟨Or.inr hnode, Or.inl rfl⟩
  · intro s other hother n
    rw [argBits_congr hrecords, mem_argBits_register_iff hreg hg houter hregister hother, hbitOf]
    simp only [hedges', bit?_congr hrecords]
    constructor
    -- The bit that is added is that of the neighbour that is added, and no other one is.
    · rintro (⟨hs, rfl⟩ | ⟨i, found, he, hi, hb⟩ | hloc)
      · exact Or.inl ⟨inner.id, inner, Or.inr ⟨rfl, hs⟩, hinner, hbit⟩
      · exact Or.inl ⟨i, found, Or.inl he, hi, hb⟩
      · exact Or.inr hloc
    · rintro (⟨i, found, he | ⟨rfl, hs⟩, hi, hb⟩ | hloc)
      · exact Or.inr (Or.inl ⟨i, found, he, hi, hb⟩)
      · obtain rfl : inner = found := Except.ok.inj (hinner.symm.trans hi)
        rw [hbit] at hb
        exact Or.inl ⟨hs, (Option.some.inj hb).symm⟩
      · exact Or.inr (Or.inr hloc)
  · intro s hs
    simp only [hedges']
    rcases (hcontains s).1 hs with rfl | hs
    · exact Or.inr ⟨inner.id, Or.inr ⟨rfl, rfl⟩⟩
    · rcases hg.location_or_outward hs with hloc | ⟨i, hedge⟩
      · exact Or.inl hloc
      · exact Or.inr ⟨i, Or.inl hedge⟩

end ArgBitsMirror

/-- The builder stands at a call site that has a node. -/
theorem Walk.contains {done : List AllocationSite} {path : List InstId}
    (h : Walk p max done path (some inner) g) : g.contains inner.id = true := by
  generalize hat : some inner = position at h
  cases h with
  | empty => simp at hat
  | start hwalk hs hregister =>
    obtain rfl := Option.some.inj hat
    rw [recordAllocator_eq]
    exact (hwalk.registry.contains_register (Program.callSite_self hs) hregister).2 (Or.inl rfl)
  | level hwalk hs hlevel =>
    obtain rfl := Option.some.inj hat
    obtain ⟨g₁, hregister, hnodes, -⟩ := addLevel_ok hlevel
    rw [contains_iff, hnodes, ← contains_iff]
    exact (hwalk.registry.contains_register (Program.callSite_self hs) hregister).2 (Or.inl rfl)
  | finish _ => simp at hat

/-- All along a walk the argument bits mirror the edges, where the locations are those of the
allocations that are done and of the present one. -/
theorem Walk.argBitsMirror {done : List AllocationSite} {path : List InstId}
    {position : Option CallSite} (h : Walk p max done path position g) :
    ArgBitsMirror p (done.map (·.callSite) ++ path.head?.toList) g := by
  induction h with
  | empty => exact ArgBitsMirror.empty
  | start hwalk hs hregister ih =>
    have hid := Program.callSite_id hs
    rw [List.head?_nil, Option.toList_none, List.append_nil] at ih
    have hstart := ih.start hwalk.registry (Program.callSite_self hs) hregister
    rw [recordAllocator_eq]
    rw [hid] at hstart
    exact hstart.congr rfl (fun _ _ => Iff.rfl) rfl
  | @level done path _ _ s inner outer hwalk hs hlevel ih =>
    obtain ⟨hlast, hinner⟩ := hwalk.getLast?
    have hhead : (path ++ [s]).head? = path.head? := by
      cases path with
      | nil => simp at hlast
      | cons first rest => rfl
    rw [hhead]
    exact ih.level hwalk.registry hinner hwalk.contains (Program.callSite_self hs) hlevel
  | @finish done g site last hwalk ih =>
    have hlocations : (done ++ [site]).map (·.callSite) ++ (none : Option InstId).toList =
        done.map (·.callSite) ++ site.path.head?.toList := by
      simp [AllocationSite.path]
    rw [List.head?_nil, hlocations]
    exact ih.congr rfl (fun _ _ => Iff.rfl) rfl

/-- The argument bits of a graph that is built mirror its edges, with the locations of the
classification. -/
theorem argBitsMirror_of_build (h : build p config c = .ok g) :
    ArgBitsMirror p (c.allocations.map (·.callSite)) g := by
  obtain ⟨g₀, hwalk, rfl⟩ := walk_of_build h
  have hmirror := hwalk.argBitsMirror
  rw [List.head?_nil, Option.toList_none, List.append_nil] at hmirror
  rw [exemptBy_eq]
  exact hmirror.congr rfl (fun _ _ => Iff.rfl) rfl

/-- All along a walk only the call sites in a record raise bits there. -/
theorem Walk.mem_callSites_of_mem_argBitsOf {done : List AllocationSite} {path : List InstId}
    {position : Option CallSite} (h : Walk p max done path position g) {F : FunctionId}
    {r : FlagRecord} (hr : g.record? F = some r) (hn : n ∈ r.argBitsOf s) : s ∈ r.callSites := by
  -- A bit is added for the call site that is registered in the same step.
  have hregister : ∀ {g g' : CallPathGraph} {site b},
      (∀ {F r s}, g.record? F = some r → n ∈ r.argBitsOf s → s ∈ r.callSites) →
      g.register max site b = .ok g' →
      ∀ {F r s}, g'.record? F = some r → n ∈ r.argBitsOf s → s ∈ r.callSites := by
    intro g g' site b hold hregister F r s hr hn
    rcases Registry.record?_register hregister hr with ⟨-, hr⟩ | ⟨r₀, bit, rfl, hassign, rfl⟩
    · exact hold hr hn
    · rw [FlagRecord.callSites_addArgBit, FlagRecord.mem_callSites_assign hassign]
      rw [FlagRecord.mem_argBitsOf_addArgBit, FlagRecord.argBitsOf,
        (FlagRecord.argBits_assign hassign).2, ← FlagRecord.argBitsOf] at hn
      rcases hn with ⟨rfl, -⟩ | hn
      · exact Or.inl rfl
      · unfold recordOrNew at hn ⊢
        cases hr : g.record? site.function with
        | none => simp [hr, FlagRecord.new, FlagRecord.argBitsOf] at hn
        | some old =>
          rw [hr] at hn
          exact Or.inr (hold hr hn)
  induction h generalizing F r s with
  | empty => simp [CallPathGraph.empty, record?] at hr
  | start _ _ hstep ih =>
    rw [recordAllocator_eq] at hr
    exact hregister (fun hr hn => ih hr hn) hstep hr hn
  | level _ _ hlevel ih =>
    obtain ⟨g₁, hstep, -, hrecords, -⟩ := addLevel_ok hlevel
    rw [record?, hrecords, ← record?] at hr
    exact hregister (fun hr hn => ih hr hn) hstep hr hn
  | finish _ ih => exact ih hr hn

/-! ## Built graphs -/

/-- The locations of a classification are those that are reported. -/
theorem mem_locations (hc : Classification.ofFacts p facts = .ok c) :
    s ∈ c.allocations.map (·.callSite) ↔
      ∃ report ∈ facts.reachableAllocations, report.location = s := by
  rw [List.mem_map]
  constructor
  · rintro ⟨a, ha, rfl⟩
    obtain ⟨report, hreport, hpath⟩ := (Classification.mem_paths_ofFacts hc).1 ⟨a, ha, rfl⟩
    exact ⟨report, hreport, (List.cons.inj hpath).1⟩
  · rintro ⟨report, hreport, rfl⟩
    obtain ⟨a, ha, hpath⟩ := (Classification.mem_paths_ofFacts hc).2 ⟨report, hreport, rfl⟩
    exact ⟨a, ha, (List.cons.inj hpath).1⟩

/-- In a graph that is built only the call sites in a record raise bits there, each with its own
argument bits. -/
theorem argBits_of_mem_argBitsOf (h : build p config c = .ok g) {F : FunctionId} {r : FlagRecord}
    (hr : g.record? F = some r) (hn : n ∈ r.argBitsOf s) :
    ∃ site, p.callSite s = .ok site ∧ site.function = F ∧ n ∈ g.argBits site := by
  have hreg := registry_of_build h
  have hmem : s ∈ r.callSites := by
    obtain ⟨g₀, hwalk, rfl⟩ := walk_of_build h
    rw [exemptBy_eq] at hr
    exact hwalk.mem_callSites_of_mem_argBitsOf hr hn
  obtain ⟨site, hsite, rfl⟩ := hreg.callSite_of_node (hreg.mem_nodes_iff.2 ⟨r, hr, hmem⟩)
  refine ⟨site, hsite, rfl, ?_⟩
  rwa [argBits, recordOrNew, hr, Option.getD_some, Program.callSite_id hsite]

/-- An argument bit of a graph that is built is smaller than the number of flag bits. -/
theorem argBit_lt (hvalid : config.validated = .ok config) (h : build p config c = .ok g)
    (hsite : p.callSite s = .ok site) (hn : n ∈ g.argBits site) :
    n < config.maxFlagBits.toNat := by
  rcases ((argBitsMirror_of_build h).mem_argBits_iff hsite).1 hn with
    ⟨i, inner, -, -, hb⟩ | ⟨rfl, -⟩
  · exact (registry_of_build h).bit?_lt hb
  · exact (PassConfig.maxFlagBits_of_validated hvalid).1

/-- An argument mask of a graph that is built has exactly the argument bits. -/
theorem getLsbD_argMask (hvalid : config.validated = .ok config) (h : build p config c = .ok g)
    (hsite : p.callSite s = .ok site) : (g.argMask site).getLsbD n = true ↔ n ∈ g.argBits site := by
  refine FlagRecord.getLsbD_argMask_of_lt fun bit hbit => ?_
  exact (argBit_lt hvalid h hsite hbit).trans_le (PassConfig.maxFlagBits_of_validated hvalid).2

/-- A call site with a node raises some bit. -/
theorem argMask_ne_zero (hvalid : config.validated = .ok config) (h : build p config c = .ok g)
    (hsite : p.callSite s = .ok site) (hnode : g.contains s = true) : g.argMask site ≠ 0 := by
  have hmirror := argBitsMirror_of_build h
  -- A node is a location, which raises bit 0, or has a neighbour, whose bit it raises.
  have hraised : ∃ n, n ∈ g.argBits site := by
    rcases hmirror.location_or_outward hnode with hloc | ⟨i, hedge⟩
    · exact ⟨0, (hmirror.mem_argBits_iff hsite).2 (Or.inr ⟨rfl, hloc⟩)⟩
    · have hi := (hmirror.contains_of_outward hedge).1
      obtain ⟨inner, hinner⟩ := (registry_of_build h).callSite_of_contains hi
      obtain ⟨n, hn⟩ := Option.isSome_iff_exists.1
        (((registry_of_build h).contains_iff_isSome_bit? hinner).1 hi)
      exact ⟨n, (hmirror.mem_argBits_iff hsite).2 (Or.inl ⟨i, inner, hedge, hinner, hn⟩)⟩
  obtain ⟨n, hn⟩ := hraised
  intro hzero
  have hset := (getLsbD_argMask hvalid h hsite).2 hn
  rw [hzero] at hset
  simp at hset

/-- Flag records and argument bits of a graph agree with its nodes and edges, and no argument bit is
lost in a mask. -/
structure BitsMirrorEdges (p : Program) (config : PassConfig) (facts : Facts)
    (g : CallPathGraph) : Prop where
  /-- A call site with a node is registered in the record of its function and in no other. -/
  registered_iff : ∀ s, g.contains s = true → ∃ site, p.callSite s = .ok site ∧
    ∀ F, (∃ r, g.record? F = some r ∧ s ∈ r.callSites) ↔ F = site.function
  /-- A registered call site has a node. -/
  contains_of_registered : ∀ F r, g.record? F = some r → ∀ s ∈ r.callSites, g.contains s = true
  /-- The bits of a record are the numbers from zero on, and no more than there are flag bits. -/
  bits_eq : ∀ F r, g.record? F = some r →
    r.callSites.map r.bit? = (List.range r.size).map some ∧ r.size ≤ config.maxFlagBits.toNat
  /-- A call site raises the bits of its inner neighbours, each in the record of its function, and
  bit 0 when it is reported to allocate. -/
  mem_argBits_iff : ∀ s site, p.callSite s = .ok site → ∀ n, n ∈ g.argBits site ↔
    (∃ neighbors i inner, g.innerNeighbors s = .ok neighbors ∧ i ∈ neighbors ∧
      p.callSite i = .ok inner ∧ g.bit? inner = some n) ∨
    (n = 0 ∧ ∃ report ∈ facts.reachableAllocations, report.location = s)
  /-- An argument bit is a flag bit, of which there are no more than a word has bits. -/
  argBit_lt : ∀ s site, p.callSite s = .ok site → ∀ n ∈ g.argBits site,
    n < config.maxFlagBits.toNat ∧ config.maxFlagBits.toNat ≤ 64
  /-- An argument mask has exactly the argument bits. -/
  getLsbD_argMask : ∀ s site, p.callSite s = .ok site → ∀ n,
    (g.argMask site).getLsbD n = true ↔ n ∈ g.argBits site
  /-- The argument mask of a call site with a node is not zero. -/
  argMask_ne_zero : ∀ s site, p.callSite s = .ok site → g.contains s = true → g.argMask site ≠ 0
  /-- Wherever the builder stands, the call site has a bit to be raised one level further out. -/
  isSome_bit? : ∀ done path inner g', Walk p config.maxFlagBits done path (some inner) g' →
    (g'.bit? inner).isSome = true

/-- Argument bits mirror the edges in every graph that is built from a classification under an
accepted configuration. -/
theorem bitsMirrorEdges_of_build (hvalid : config.validated = .ok config)
    (hc : Classification.ofFacts p facts = .ok c) (h : build p config c = .ok g) :
    BitsMirrorEdges p config facts g where
  registered_iff s hs := by
    have hreg := registry_of_build h
    obtain ⟨site, hsite⟩ := hreg.callSite_of_contains hs
    refine ⟨site, hsite, fun F => ?_⟩
    rw [← hreg.mem_nodes_iff]
    constructor
    · intro hn
      obtain ⟨found, hfound, hF⟩ := hreg.callSite_of_node hn
      rw [hsite] at hfound
      rw [← hF, ← Except.ok.inj hfound]
    · rintro rfl
      have hbit := (hreg.contains_iff_isSome_bit? hsite).1 hs
      rw [CallPathGraph.isSome_bit?, Program.callSite_id hsite, ← hreg.mem_nodes_iff] at hbit
      exact hbit
  contains_of_registered F r hr s hs :=
    contains_iff.2 ⟨_, (registry_of_build h).mem_nodes_iff.2 ⟨r, hr, hs⟩, rfl⟩
  bits_eq F r hr :=
    ⟨FlagRecord.map_bit?_callSites ((registry_of_build h).record_nodup hr),
      (registry_of_build h).record_length_le hr⟩
  mem_argBits_iff s site hsite n := by
    have hmirror := argBitsMirror_of_build h
    rw [hmirror.mem_argBits_iff hsite, mem_locations hc]
    refine or_congr ⟨?_, ?_⟩ Iff.rfl
    · rintro ⟨i, inner, hedge, hinner, hb⟩
      obtain ⟨index, hindex⟩ := node_eq_ok (hmirror.contains_of_outward hedge).2
      have hneighbors : ∃ neighbors, g.innerNeighbors s = .ok neighbors :=
        ⟨_, map_eq_ok.2 ⟨index, hindex, rfl⟩⟩
      obtain ⟨neighbors, hneighbors⟩ := hneighbors
      exact ⟨neighbors, i, inner, hneighbors, (mem_innerNeighbors hneighbors).2 hedge, hinner, hb⟩
    · rintro ⟨neighbors, i, inner, hneighbors, hi, hinner, hb⟩
      exact ⟨i, inner, (mem_innerNeighbors hneighbors).1 hi, hinner, hb⟩
  argBit_lt s site hsite n hn :=
    ⟨CallPathGraph.argBit_lt hvalid h hsite hn, (PassConfig.maxFlagBits_of_validated hvalid).2⟩
  getLsbD_argMask s site hsite n := CallPathGraph.getLsbD_argMask hvalid h hsite
  argMask_ne_zero s site hsite hs := CallPathGraph.argMask_ne_zero hvalid h hsite hs
  isSome_bit? done path inner g' hwalk :=
    (hwalk.registry.contains_iff_isSome_bit? hwalk.getLast?.2).1 hwalk.contains

/-- The graph of the relay has bits that mirror its edges. -/
theorem bitsMirrorEdges_relay : ∃ c g, Classification.ofFacts relay relayFacts = .ok c ∧
    build relay (.ofPreset .precise) c = .ok g ∧
    BitsMirrorEdges relay (.ofPreset .precise) relayFacts g :=
  ⟨_, _, rfl, rfl, bitsMirrorEdges_of_build rfl rfl rfl⟩

end CallPathGraph

end HeapDomains
