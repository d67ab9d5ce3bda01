import HeapDomains.Proofs.Flag.Alike
import HeapDomains.Proofs.Flag.Partition
import HeapDomains.Proofs.Flag.Shape

/-!
# The parts of a report agree

A report counts slots, stores and resets over the operations of its plan, while its sets of call
sites come from the graph. Both agree: the records of the graph list every call site with a node
once (`Registry.callSites_perm`), a plan gives a slot and a reset to each guarded call site of its
record and a constant to each entry (`Shaped.map_site?_filter`), and every call site has one role.
So the numbers of a report are the sizes of its parts (`consistent_of_analyse`).
-/

namespace HeapDomains

/-- The call sites with a slot in a flag plan. -/
def FlagPlan.slotSites (plan : FlagPlan) : List InstId :=
  (plan.functions.values.flatMap (·.slots)).map (·.callSite)

/-- The parts of a report agree with each other and with the program. -/
structure Report.Consistent (report : Report) (p : Program) (config : PassConfig) : Prop where
  /-- The functions with a plan are those that make a call on a reported path. -/
  isSome_function?_iff : ∀ F, (report.plan.function? F).isSome = true ↔
    ∃ site, p.callSite site.id = .ok site ∧ site.function = F ∧
      site.id ∈ report.exposedCallSites
  /-- A plan is found under its own function. -/
  function_eq : ∀ F f, report.plan.function? F = some f → f.function = F
  /-- The call sites on reported paths are the entries, the exempt ones and those with a slot. -/
  mem_exposedCallSites_iff : ∀ s, s ∈ report.exposedCallSites ↔
    s ∈ report.entries ∨ s ∈ report.exempt ∨ s ∈ report.plan.slotSites
  /-- No entry is exempt. -/
  not_mem_exempt : ∀ s ∈ report.entries, s ∉ report.exempt
  /-- No entry and no exempt call site has a slot. -/
  not_mem_slotSites : ∀ s, s ∈ report.entries ∨ s ∈ report.exempt → s ∉ report.plan.slotSites
  /-- No call site has two slots. -/
  nodup_slotSites : report.plan.slotSites.Nodup
  /-- A slot stands in the plan of the function that its call site belongs to. -/
  function_of_slot : ∀ F f, report.plan.function? F = some f → ∀ slot ∈ f.slots,
    ∃ site, p.callSite slot.callSite = .ok site ∧ site.function = F
  /-- Operations stand in the plan of the function that their call site belongs to. -/
  function_of_op : ∀ F f, report.plan.function? F = some f → ∀ op ∈ f.ops, ∀ s,
    op.site? = some s → ∃ site, p.callSite s = .ok site ∧ site.function = F
  /-- The plan of its function stores a constant before the call of each entry. -/
  entryConstant?_isSome : ∀ s ∈ report.entries, ∃ site f, p.callSite s = .ok site ∧
    report.plan.function? site.function = some f ∧ (f.entryConstant? s).isSome = true
  /-- The plan of its function clears the flag once after the call of each call site with a slot. -/
  length_resetsFor : ∀ s ∈ report.plan.slotSites, ∃ site f, p.callSite s = .ok site ∧
    report.plan.function? site.function = some f ∧ (f.slotFor? s).isSome = true ∧
    (f.resetsFor s).length = 1
  /-- As many functions are instrumented as have a plan. -/
  functionsInstrumented_eq : report.stats.functionsInstrumented = report.plan.functions.size
  /-- As many constants are stored as there are entries. -/
  entryStores_eq : report.stats.entryStores = report.entries.size
  /-- Slots are what is left of the call sites without entries and exempt ones. -/
  slots_add : report.stats.slots + report.entries.size + report.exempt.size =
    report.exposedCallSites.size
  /-- As many resets are placed as there are slots. -/
  resets_eq : report.stats.resets = report.stats.slots
  /-- The functions that load the flag are those with a slot, or all of them. -/
  entryReads_eq : report.stats.entryReads =
    if config.skipUnusedEntryRead then
      report.plan.functions.values.countP fun f => !f.slots.isEmpty
    else report.stats.functionsInstrumented
  /-- The stack slots that have to move are counted. -/
  relocations_eq : report.stats.relocations = report.relocations.size
  /-- The pointers that cross the boundary are counted. -/
  boundaryPointers_eq : report.stats.boundaryPointers = report.boundaryPointers.size
  /-- The hardening steps are counted. -/
  hardeningSteps_eq : report.stats.hardeningSteps = report.hardening.length

variable {p : Program} {config : PassConfig} {facts : Facts} {c : Classification}
  {g : CallPathGraph} {report : Report} {plan : FlagPlan} {max : UInt32} {f : FunctionPlan}
  {r : FlagRecord} {s : InstId} {F : FunctionId} {role : CallSiteRole}

/-! ## The operations of a plan, by the roles of call sites -/

/-- A kind of operation is placed for the call sites with a role only: exactly one for each, and
none in the entry block. -/
structure FlagOp.IsPlacedFor (test : FlagOp → Bool) (role : CallSiteRole) : Prop where
  /-- Loading the flag is of another kind. -/
  readEntryFlag : ∀ block, test (.readEntryFlag block) = false
  /-- Computing a slot is of another kind. -/
  computeSlot : ∀ slot site bit mask, test (.computeSlot slot site bit mask) = false
  /-- What is placed around a call has one such operation, or none. -/
  map_site?_filter : ∀ {f : FunctionPlan} {p g r s block}, f.Places p g r s block →
    (block.filter test).map FlagOp.site? = if g.hasRole role s then [some s] else []

/-- Constants are stored for entries. -/
theorem isPlacedFor_isStoreConstant : FlagOp.IsPlacedFor FlagOp.isStoreConstant .entry where
  readEntryFlag _ := rfl
  computeSlot _ _ _ _ := rfl
  map_site?_filter hplaces := by
    unfold CallPathGraph.hasRole
    cases hplaces with
    | exempt hrole => rw [hrole]; rfl
    | entry hrole => rw [hrole]; rfl
    | guardedPlain hrole _ _ _ => rw [hrole]; rfl
    | guardedInvoke hrole _ _ _ => rw [hrole]; rfl

/-- The flag is cleared for guarded call sites. -/
theorem isPlacedFor_isReset : FlagOp.IsPlacedFor FlagOp.isReset .guarded where
  readEntryFlag _ := rfl
  computeSlot _ _ _ _ := rfl
  map_site?_filter hplaces := by
    unfold CallPathGraph.hasRole
    cases hplaces with
    | exempt hrole => rw [hrole]; rfl
    | entry hrole => rw [hrole]; rfl
    | guardedPlain hrole _ _ _ => rw [hrole]; rfl
    | guardedInvoke hrole _ _ _ => rw [hrole]; rfl

variable {sites : List InstId} {blocks : List (List FlagOp)} {block : List FlagOp} {op : FlagOp}

/-- The flag is cleared after a call as often as resets belong to its call site. -/
theorem FlagOp.length_filterMap_resetFor? {ops : List FlagOp} :
    (ops.filterMap (FlagOp.resetFor? s)).length =
      ((ops.filter FlagOp.isReset).map FlagOp.site?).count (some s) := by
  induction ops with
  | nil => rfl
  | cons op rest ih =>
    cases op with
    | reset site point =>
      rw [List.filter_cons_of_pos rfl, List.map_cons, FlagOp.site?, List.count_cons, ← ih]
      by_cases hsite : site = s
      · have hfor : FlagOp.resetFor? s (.reset site point) = some point := if_pos hsite
        rw [List.filterMap_cons_some hfor, List.length_cons, hsite, beq_self_eq_true, if_pos rfl]
      · have hfor : FlagOp.resetFor? s (.reset site point) = none := if_neg hsite
        rw [List.filterMap_cons_none hfor, if_neg (by simpa using hsite), Nat.add_zero]
    | readEntryFlag _ => exact ih
    | computeSlot _ _ _ _ => exact ih
    | storeSlot _ _ => exact ih
    | storeConstant _ _ => exact ih

/-- What is placed around a call belongs to its call site. -/
theorem FunctionPlan.Places.site?_eq (h : f.Places p g r s block) (hop : op ∈ block) :
    op.site? = some s := by
  cases h with
  | exempt _ => simp at hop
  | entry _ =>
    obtain rfl := List.mem_singleton.1 hop
    rfl
  | guardedPlain _ _ _ _ =>
    rcases List.mem_pair.1 hop with rfl | rfl
    · rfl
    · rfl
  | guardedInvoke _ _ _ _ =>
    rcases List.mem_pair.1 hop with rfl | rfl
    · rfl
    · rfl

/-- What is placed for several call sites belongs to one of them. -/
theorem site_mem_of_places (h : List.Forall₂ (f.Places p g r) sites blocks)
    (hop : op ∈ blocks.flatten) (hs : op.site? = some s) : s ∈ sites := by
  induction h with
  | nil => simp at hop
  | cons hplaces _ ih =>
    rw [List.flatten_cons, List.mem_append] at hop
    rcases hop with hown | hrest
    · rw [hplaces.site?_eq hown] at hs
      rw [Option.some.inj hs]
      exact List.mem_cons_self
    · exact List.mem_cons_of_mem _ (ih hrest)

/-- Among what is placed for several call sites, the operations of a kind belong to those with the
role that the kind is placed for, in their order. -/
theorem FlagOp.IsPlacedFor.map_site?_flatten {test : FlagOp → Bool}
    (htest : FlagOp.IsPlacedFor test role) (h : List.Forall₂ (f.Places p g r) sites blocks) :
    (blocks.flatten.filter test).map FlagOp.site? = (sites.filter (g.hasRole role)).map some := by
  induction h with
  | nil => rfl
  | cons hplaces _ ih =>
    rw [List.flatten_cons, List.filter_append, List.map_append, htest.map_site?_filter hplaces, ih,
      List.filter_cons]
    split
    · rfl
    · rfl

namespace FunctionPlan.Shaped

/-- The operations of a kind belong to the call sites of the record with the role that the kind is
placed for, in bit order. -/
theorem map_site?_filter (h : f.Shaped p config g r) {test : FlagOp → Bool}
    (htest : FlagOp.IsPlacedFor test role) :
    (f.ops.filter test).map FlagOp.site? = (r.callSites.filter (g.hasRole role)).map some := by
  obtain ⟨blocks, hblocks, hops⟩ := h.ops_eq
  have hread : (if f.readsEntryFlag then [FlagOp.readEntryFlag f.entryBlock] else []).filter test =
      [] := by
    split
    · rw [List.filter_cons_of_neg (by rw [htest.readEntryFlag]; simp), List.filter_nil]
    · rfl
  have hcompute : (f.slots.map fun slot =>
      FlagOp.computeSlot slot.id slot.callSite slot.bit slot.argMask).filter test = [] := by
    rw [List.filter_eq_nil_iff]
    intro op hop
    obtain ⟨slot, -, rfl⟩ := List.mem_map.1 hop
    rw [htest.computeSlot]
    simp
  rw [hops, List.filter_append, List.filter_append, hread, hcompute, List.nil_append,
    List.nil_append, htest.map_site?_flatten hblocks]

/-- There are as many operations of a kind as call sites with the role that it is placed for. -/
theorem countP_ops (h : f.Shaped p config g r) {test : FlagOp → Bool}
    (htest : FlagOp.IsPlacedFor test role) :
    f.ops.countP test = (r.callSites.filter (g.hasRole role)).length := by
  have hlength := congrArg List.length (h.map_site?_filter htest)
  rw [List.length_map, List.length_map] at hlength
  rw [List.countP_eq_length_filter, hlength]

/-- A slot belongs to a call site of the record. -/
theorem mem_callSites_of_slot (h : f.Shaped p config g r) {slot : ScratchSlot}
    (hslot : slot ∈ f.slots) : slot.callSite ∈ r.callSites := by
  have hmem : slot.callSite ∈ r.callSites.filter (g.hasRole .guarded) := by
    rw [← h.map_callSite_slots]
    exact List.mem_map_of_mem hslot
  exact List.mem_of_mem_filter hmem

/-- An operation belongs to no call site, or to one of the record. -/
theorem mem_callSites_of_op (h : f.Shaped p config g r) (hop : op ∈ f.ops)
    (hs : op.site? = some s) : s ∈ r.callSites := by
  obtain ⟨blocks, hblocks, hops⟩ := h.ops_eq
  rw [hops, List.mem_append, List.mem_append, List.mem_map] at hop
  rcases hop with (hread | ⟨slot, hslot, rfl⟩) | hplaced
  · split at hread
    · obtain rfl := List.mem_singleton.1 hread
      simp [FlagOp.site?] at hs
    · simp at hread
  · obtain rfl := Option.some.inj hs
    exact h.mem_callSites_of_slot hslot
  · exact site_mem_of_places hblocks hplaced hs

/-- A guarded call site of the record has a slot. -/
theorem isSome_slotFor? (h : f.Shaped p config g r) (hs : s ∈ r.callSites)
    (hrole : g.hasRole .guarded s = true) : (f.slotFor? s).isSome = true := by
  have hmem : s ∈ f.slots.map (·.callSite) := by
    rw [h.map_callSite_slots]
    exact List.mem_filter.2 ⟨hs, hrole⟩
  obtain ⟨slot, hslot, rfl⟩ := List.mem_map.1 hmem
  rw [FunctionPlan.slotFor?, List.find?_isSome]
  exact ⟨slot, hslot, by simp⟩

/-- A constant is stored before the call of an entry. -/
theorem isSome_entryConstant? (h : f.Shaped p config g r) (hs : s ∈ r.callSites)
    (hrole : g.hasRole .entry s = true) : (f.entryConstant? s).isSome = true := by
  have hmem : some s ∈ (f.ops.filter FlagOp.isStoreConstant).map FlagOp.site? := by
    rw [h.map_site?_filter isPlacedFor_isStoreConstant]
    exact List.mem_map_of_mem (List.mem_filter.2 ⟨hs, hrole⟩)
  obtain ⟨op, hop, hsite⟩ := List.mem_map.1 hmem
  obtain ⟨hop, hstore⟩ := List.mem_filter.1 hop
  rw [FunctionPlan.entryConstant?, List.findSome?_isSome_iff]
  refine ⟨op, hop, ?_⟩
  cases op with
  | storeConstant site value =>
    obtain rfl := Option.some.inj hsite
    simp [FlagOp.constantFor?]
  | readEntryFlag _ => simp [FlagOp.isStoreConstant] at hstore
  | computeSlot _ _ _ _ => simp [FlagOp.isStoreConstant] at hstore
  | storeSlot _ _ => simp [FlagOp.isStoreConstant] at hstore
  | reset _ _ => simp [FlagOp.isStoreConstant] at hstore

/-- The flag is cleared once after the call of a guarded call site. -/
theorem length_resetsFor (h : f.Shaped p config g r) (hnodup : r.callSites.Nodup)
    (hs : s ∈ r.callSites) (hrole : g.hasRole .guarded s = true) :
    (f.resetsFor s).length = 1 := by
  have hguarded : (r.callSites.filter (g.hasRole .guarded)).Nodup := hnodup.filter _
  rw [FunctionPlan.resetsFor, FlagOp.length_filterMap_resetFor?,
    h.map_site?_filter isPlacedFor_isReset]
  refine List.count_eq_one_of_mem (hguarded.map fun _ _ h => Option.some.inj h) ?_
  exact List.mem_map_of_mem (List.mem_filter.2 ⟨hs, hrole⟩)

end FunctionPlan.Shaped

/-! ## The records of a graph and its call sites -/

namespace CallPathGraph

/-- A registry aligns the records. -/
theorem Registry.recordsAligned (hg : g.Registry p max) : g.RecordsAligned :=
  ⟨hg.record_function, hg.record_nodup⟩

/-- The records list every call site with a node once. -/
theorem Registry.callSites_perm (hg : g.Registry p max) :
    (g.records.values.flatMap (·.callSites)).Perm g.callSites.toList := by
  have hnodup : (g.records.values.flatMap (·.callSites)).Nodup := by
    rw [List.nodup_flatMap]
    constructor
    · intro r hr
      obtain ⟨F, hF⟩ := OrderedMap.mem_values_iff.1 hr
      exact hg.record_nodup hF
    · -- Records of different functions have no call site in common.
      rw [OrderedMap.values, List.pairwise_map]
      refine g.records.sorted.imp_of_mem fun {a b} ha hb hlt => ?_
      intro s hsa hsb
      have hnode : ∀ e ∈ g.records.entries, s ∈ e.2.callSites → ⟨s, e.1⟩ ∈ g.nodes :=
        fun e he hs => hg.mem_nodes_iff.2 ⟨e.2, OrderedMap.find?_of_mem g.records.sorted he, hs⟩
      obtain ⟨site, hsite, hsiteA⟩ := hg.callSite_of_node (hnode a ha hsa)
      obtain ⟨site', hsite', hsiteB⟩ := hg.callSite_of_node (hnode b hb hsb)
      obtain rfl : site = site' := Except.ok.inj (hsite.symm.trans hsite')
      rw [← hsiteA, ← hsiteB] at hlt
      exact Nat.lt_irrefl _ hlt
  refine (List.perm_ext_iff_of_nodup hnodup g.callSites.nodup).2 fun s => ?_
  rw [List.mem_flatMap, ← OrderedSet.mem_def, mem_callSites]
  constructor
  · rintro ⟨r, hr, hs⟩
    obtain ⟨F, hF⟩ := OrderedMap.mem_values_iff.1 hr
    exact contains_iff.2 ⟨⟨s, F⟩, hg.mem_nodes_iff.2 ⟨r, hF, hs⟩, rfl⟩
  · intro hs
    obtain ⟨⟨s', F⟩, hnode, rfl⟩ := contains_iff.1 hs
    obtain ⟨r, hr, hmem⟩ := hg.mem_nodes_iff.1 hnode
    exact ⟨r, OrderedMap.mem_values_iff.2 ⟨F, hr⟩, hmem⟩

/-- The call sites with a role, in ascending order. -/
def sitesOf (g : CallPathGraph) (role : CallSiteRole) : OrderedSet InstId :=
  g.callSites.filter (g.hasRole role)

/-- A call site with a role has a node. -/
theorem mem_sitesOf : s ∈ g.sitesOf role ↔ g.role s = .ok role := by
  rw [sitesOf, OrderedSet.mem_filter, mem_callSites, hasRole, decide_eq_true_eq]
  exact and_iff_right_of_imp contains_of_role

/-- The entries are the call sites with their role. -/
theorem entries_eq_sitesOf (h : build p config c = .ok g) : g.entries = g.sitesOf .entry :=
  OrderedSet.ext fun _ => (role_eq_entry_iff h).symm.trans mem_sitesOf.symm

/-- The exempt call sites are those with their role. -/
theorem exempt_eq_sitesOf (h : build p config c = .ok g) : g.exempt = g.sitesOf .exempt :=
  OrderedSet.ext fun _ => (role_eq_exempt_iff h).symm.trans mem_sitesOf.symm

/-- The call sites with a node are divided among the three roles. -/
theorem contains_iff_role : g.contains s = true ↔
    g.role s = .ok .entry ∨ g.role s = .ok .exempt ∨ g.role s = .ok .guarded := by
  constructor
  · intro hs
    obtain ⟨role, hrole⟩ : ∃ role, g.role s = .ok role := ⟨_, role_eq_ok hs⟩
    cases role with
    | entry => exact Or.inl hrole
    | exempt => exact Or.inr (Or.inl hrole)
    | guarded => exact Or.inr (Or.inr hrole)
  · rintro (hrole | hrole | hrole)
    · exact contains_of_role hrole
    · exact contains_of_role hrole
    · exact contains_of_role hrole

/-- Every call site with a node has one of the three roles. -/
theorem size_sitesOf_add : (g.sitesOf .guarded).size + (g.sitesOf .entry).size +
    (g.sitesOf .exempt).size = g.callSites.size := by
  have hroles : ∀ sites : List InstId, (∀ s ∈ sites, ∃ role, g.role s = .ok role) →
      (sites.filter (g.hasRole .guarded)).length + (sites.filter (g.hasRole .entry)).length +
        (sites.filter (g.hasRole .exempt)).length = sites.length := by
    intro sites h
    induction sites with
    | nil => rfl
    | cons s rest ih =>
      obtain ⟨role, hrole⟩ := h s List.mem_cons_self
      have hrest := ih fun s' hs' => h s' (List.mem_cons_of_mem _ hs')
      simp only [List.filter_cons, hasRole, hrole, Except.ok.injEq]
      cases role with
      | entry => simp; omega
      | exempt => simp; omega
      | guarded => simp; omega
  refine hroles g.callSites.toList fun s hs => ?_
  exact ⟨_, role_eq_ok (mem_callSites.1 hs)⟩

end CallPathGraph

/-! ## The plan of a graph -/

/-- The functions of a graph are planned in the shapes that their records ask for, in the same
order. -/
theorem forall₂_shaped (hg : g.RecordsAligned) (h : planFlags p config g = .ok plan) :
    List.Forall₂ (fun f r => f.Shaped p config g r) plan.functions.values g.records.values := by
  refine OrderedMap.forall₂_values fun F => ?_
  change Option.Rel _ (plan.function? F) (g.record? F)
  cases hr : g.record? F with
  | none =>
    rw [(function?_of_planFlags hg.record_function h).1 hr]
    exact .none
  | some r =>
    obtain ⟨f, hf, hshaped⟩ := shaped_of_planFlags hg h hr
    rw [hf]
    exact .some hshaped

/-- The call sites with a slot are the guarded ones. -/
theorem slotSites_perm (hreg : g.Registry p max) (h : planFlags p config g = .ok plan) :
    plan.slotSites.Perm (g.sitesOf .guarded).toList := by
  have hshaped := forall₂_shaped hreg.recordsAligned h
  have hslots : plan.slotSites =
      (g.records.values.flatMap (·.callSites)).filter (g.hasRole .guarded) := by
    rw [FlagPlan.slotSites, List.map_flatMap, List.filter_flatMap, List.flatMap_def,
      List.flatMap_def]
    exact congrArg List.flatten (map_eq_of_forall₂ hshaped fun f r hf => hf.map_callSite_slots)
  rw [hslots]
  exact hreg.callSites_perm.filter _

/-- A call site has a slot when it is guarded. -/
theorem mem_slotSites_iff (hreg : g.Registry p max) (h : planFlags p config g = .ok plan) :
    s ∈ plan.slotSites ↔ g.role s = .ok .guarded := by
  rw [(slotSites_perm hreg h).mem_iff, ← OrderedSet.mem_def, CallPathGraph.mem_sitesOf]

/-- There are as many slots as guarded call sites. -/
theorem slotCount_eq (hreg : g.Registry p max) (h : planFlags p config g = .ok plan) :
    plan.slotCount = (g.sitesOf .guarded).size := by
  rw [FlagPlan.slotCount, ← List.length_map (·.callSite)]
  exact (slotSites_perm hreg h).length_eq

/-- There are as many operations of a kind as call sites with the role that it is placed for. -/
theorem countOps_eq (hreg : g.Registry p max) (h : planFlags p config g = .ok plan)
    {test : FlagOp → Bool} (htest : FlagOp.IsPlacedFor test role) :
    plan.countOps test = (g.sitesOf role).size := by
  have hshaped := forall₂_shaped hreg.recordsAligned h
  have hcounts := map_eq_of_forall₂ hshaped fun f r hf => hf.countP_ops htest
  have hperm := (hreg.callSites_perm.filter (g.hasRole role)).length_eq
  rw [FlagPlan.countOps, List.countP_flatMap]
  calc (plan.functions.values.map fun f => f.ops.countP test).sum
      = (g.records.values.map fun r => (r.callSites.filter (g.hasRole role)).length).sum :=
        congrArg List.sum hcounts
    _ = ((g.records.values.flatMap (·.callSites)).filter (g.hasRole role)).length := by
        rw [List.filter_flatMap, List.length_flatMap]
    _ = (g.sitesOf role).size := hperm

/-- A plan that is found under a function is that of its record. -/
theorem exists_shaped_of_function? (hg : g.RecordsAligned) (h : planFlags p config g = .ok plan)
    (hf : plan.function? F = some f) : ∃ r, g.record? F = some r ∧ f.Shaped p config g r := by
  cases hr : g.record? F with
  | none => simp [(function?_of_planFlags hg.record_function h).1 hr] at hf
  | some r =>
    obtain ⟨f', hf', hshaped⟩ := shaped_of_planFlags hg h hr
    obtain rfl : f = f' := Option.some.inj (hf.symm.trans hf')
    exact ⟨r, rfl, hshaped⟩

/-- The number of functions that load the flag is that of functions with a slot, or that of all. -/
theorem entryReadCount_eq (hg : g.RecordsAligned) (h : planFlags p config g = .ok plan) :
    plan.entryReadCount = if config.skipUnusedEntryRead then
      plan.functions.values.countP fun f => !f.slots.isEmpty else plan.functionCount := by
  have hreads : ∀ f ∈ plan.functions.values,
      f.readsEntryFlag = (!f.slots.isEmpty || !config.skipUnusedEntryRead) := by
    intro f hf
    obtain ⟨F, hF⟩ := OrderedMap.mem_values_iff.1 hf
    obtain ⟨r, -, hshaped⟩ := exists_shaped_of_function? hg h hF
    rw [Bool.eq_iff_iff, hshaped.readsEntryFlag_iff]
    simp
  rw [FlagPlan.entryReadCount]
  split
  · rename_i hskip
    refine List.countP_congr fun f hf => ?_
    rw [hreads f hf, hskip, Bool.not_true, Bool.or_false]
  · rename_i hskip
    have hall : ∀ f ∈ plan.functions.values, f.readsEntryFlag = true := by
      intro f hf
      rw [hreads f hf, eq_false_of_ne_true hskip, Bool.not_false, Bool.or_true]
    rw [List.countP_eq_length.2 hall]
    exact List.length_map ..

/-- A call site with a node belongs to a function with a plan, whose record lists it. -/
theorem exists_shaped_of_contains (hreg : g.Registry p max) (h : planFlags p config g = .ok plan)
    (hs : g.contains s = true) : ∃ site r f, p.callSite s = .ok site ∧
      g.record? site.function = some r ∧ s ∈ r.callSites ∧
      plan.function? site.function = some f ∧ f.Shaped p config g r := by
  obtain ⟨site, hsite⟩ := hreg.callSite_of_contains hs
  obtain ⟨r, hr, hmem⟩ := (hreg.contains_iff_registered hsite).1 hs
  obtain ⟨f, hf, hshaped⟩ := shaped_of_planFlags hreg.recordsAligned h hr
  exact ⟨site, r, f, hsite, hr, hmem, hf, hshaped⟩

/-- The call sites that the plan of a function deals with belong to the function. -/
theorem callSite_of_mem_record (hreg : g.Registry p max) (hr : g.record? F = some r)
    (hs : s ∈ r.callSites) : ∃ site, p.callSite s = .ok site ∧ site.function = F :=
  hreg.callSite_of_node (hreg.mem_nodes_iff.2 ⟨r, hr, hs⟩)

/-- The functions with a plan are those that a call site with a node belongs to. -/
theorem isSome_function?_iff_callSites (hreg : g.Registry p max)
    (h : planFlags p config g = .ok plan) : (plan.function? F).isSome = true ↔
      ∃ site, p.callSite site.id = .ok site ∧ site.function = F ∧ site.id ∈ g.callSites := by
  constructor
  · intro hsome
    obtain ⟨f, hf⟩ := Option.isSome_iff_exists.1 hsome
    obtain ⟨r, hr, -⟩ := exists_shaped_of_function? hreg.recordsAligned h hf
    -- The record of a function with a plan lists some call site.
    obtain ⟨s, hs⟩ := List.exists_mem_of_ne_nil _ (hreg.record_ne_nil hr)
    obtain ⟨site, hsite, hF⟩ := callSite_of_mem_record hreg hr hs
    obtain rfl := Program.callSite_id hsite
    exact ⟨site, hsite, hF, CallPathGraph.mem_callSites.2
      (CallPathGraph.contains_iff.2 ⟨_, hreg.mem_nodes_iff.2 ⟨r, hr, hs⟩, rfl⟩)⟩
  · rintro ⟨site, hsite, rfl, hs⟩
    obtain ⟨site', -, f, hsite', -, -, hf, -⟩ :=
      exists_shaped_of_contains hreg h (CallPathGraph.mem_callSites.1 hs)
    obtain rfl : site = site' := Except.ok.inj (hsite.symm.trans hsite')
    exact Option.isSome_of_eq_some hf

/-! ## Reports -/

/-- The report of a run that succeeds is consistent. -/
theorem consistent_of_analyse (h : p.analyse config facts = .ok report) :
    report.Consistent p config := by
  obtain ⟨c, g, plan, hc, hg, hplan, rfl⟩ := Program.stages_of_analyse h
  have hreg := CallPathGraph.registry_of_build hg
  have hentry : ∀ {s}, s ∈ g.entries ↔ g.role s = .ok .entry :=
    (CallPathGraph.role_eq_entry_iff hg).symm
  have hexempt : ∀ {s}, s ∈ g.exempt ↔ g.role s = .ok .exempt :=
    (CallPathGraph.role_eq_exempt_iff hg).symm
  have hslot : ∀ {s}, s ∈ plan.slotSites ↔ g.role s = .ok .guarded := mem_slotSites_iff hreg hplan
  constructor
  case isSome_function?_iff => exact fun F => isSome_function?_iff_callSites hreg hplan
  case function_eq =>
    intro F f hf
    obtain ⟨r, hr, hshaped⟩ := exists_shaped_of_function? hreg.recordsAligned hplan hf
    rw [hshaped.function_eq, hreg.record_function hr]
  case mem_exposedCallSites_iff =>
    intro s
    change s ∈ g.callSites ↔ s ∈ g.entries ∨ s ∈ g.exempt ∨ s ∈ plan.slotSites
    rw [CallPathGraph.mem_callSites, hentry, hexempt, hslot]
    exact CallPathGraph.contains_iff_role
  case not_mem_exempt =>
    intro s hs hs'
    have hrole := hentry.1 hs
    rw [hexempt.1 hs'] at hrole
    cases hrole
  case not_mem_slotSites =>
    intro s hs hs'
    change s ∈ g.entries ∨ s ∈ g.exempt at hs
    rw [hentry, hexempt, hslot.1 hs'] at hs
    rcases hs with hrole | hrole
    · cases hrole
    · cases hrole
  case nodup_slotSites =>
    exact (slotSites_perm hreg hplan).nodup_iff.2 (g.sitesOf .guarded).nodup
  case function_of_slot =>
    intro F f hf slot hmem
    obtain ⟨r, hr, hshaped⟩ := exists_shaped_of_function? hreg.recordsAligned hplan hf
    exact callSite_of_mem_record hreg hr (hshaped.mem_callSites_of_slot hmem)
  case function_of_op =>
    intro F f hf op hop s hs
    obtain ⟨r, hr, hshaped⟩ := exists_shaped_of_function? hreg.recordsAligned hplan hf
    exact callSite_of_mem_record hreg hr (hshaped.mem_callSites_of_op hop hs)
  case entryConstant?_isSome =>
    intro s hs
    have hrole := hentry.1 hs
    obtain ⟨site, r, f, hsite, -, hmem, hf, hshaped⟩ :=
      exists_shaped_of_contains hreg hplan (CallPathGraph.contains_of_role hrole)
    exact ⟨site, f, hsite, hf, hshaped.isSome_entryConstant? hmem (decide_eq_true hrole)⟩
  case length_resetsFor =>
    intro s hs
    have hrole := hslot.1 hs
    obtain ⟨site, r, f, hsite, hr, hmem, hf, hshaped⟩ :=
      exists_shaped_of_contains hreg hplan (CallPathGraph.contains_of_role hrole)
    exact ⟨site, f, hsite, hf, hshaped.isSome_slotFor? hmem (decide_eq_true hrole),
      hshaped.length_resetsFor (hreg.record_nodup hr) hmem (decide_eq_true hrole)⟩
  case functionsInstrumented_eq => rfl
  case entryStores_eq =>
    change plan.entryStoreCount = g.entries.size
    rw [FlagPlan.entryStoreCount, countOps_eq hreg hplan isPlacedFor_isStoreConstant,
      CallPathGraph.entries_eq_sitesOf hg]
  case slots_add =>
    change plan.slotCount + g.entries.size + g.exempt.size = g.callSites.size
    rw [slotCount_eq hreg hplan, CallPathGraph.entries_eq_sitesOf hg,
      CallPathGraph.exempt_eq_sitesOf hg, CallPathGraph.size_sitesOf_add]
  case resets_eq =>
    change plan.resetCount = plan.slotCount
    rw [FlagPlan.resetCount, countOps_eq hreg hplan isPlacedFor_isReset,
      slotCount_eq hreg hplan]
  case entryReads_eq => exact entryReadCount_eq hreg.recordsAligned hplan
  case relocations_eq => rfl
  case boundaryPointers_eq => rfl
  case hardeningSteps_eq => rfl

/-- The report on the dispatched allocations is consistent when no call site is exempt. -/
theorem consistent_dispatch : ∃ report,
    dispatch.analyse (.ofPreset .precise) dispatchFacts = .ok report ∧ report.stats.slots = 2 ∧
    report.Consistent dispatch (.ofPreset .precise) := by
  obtain ⟨report, hreport, hslots⟩ : ∃ report,
      dispatch.analyse (.ofPreset .precise) dispatchFacts = .ok report ∧ report.stats.slots = 2 :=
    ⟨_, rfl, rfl⟩
  exact ⟨report, hreport, hslots, consistent_of_analyse hreport⟩

end HeapDomains
