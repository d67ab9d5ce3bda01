import HeapDomains.Proofs.CallPath.Registry
import HeapDomains.Proofs.Flag.FunctionPlan
import HeapDomains.Proofs.Ordered

/-!
# What a flag plan does

A flag plan does at each call site what the role of the call site in the graph says, and nothing at
call sites without a node. `CallPathGraph.flagBefore` and `CallPathGraph.flagAfter` say so without
slots and operations; `FlagPlan.before_enter` and `FlagPlan.after_eq` show that the plan of a graph
with a registry agrees with them, and `exists_planFlags` that such a graph has a plan. What is
proved about executions goes through these, so the shape of a plan matters here only.
-/

namespace HeapDomains

/-- The flag right before a call from a frame that was entered with the flag `entry`. -/
def CallPathGraph.flagBefore (g : CallPathGraph) (site : CallSite) (entry flag : Word) : Word :=
  match g.role site.id with
  | .ok .entry => g.argMask site
  | .ok .guarded => if entry.has (g.bitOf site) then g.argMask site else 0
  | .ok .exempt | .error _ => flag

/-- The flag once a call has returned. -/
def CallPathGraph.flagAfter (g : CallPathGraph) (site : CallSite) (flag : Word) : Word :=
  match g.role site.id with
  | .ok .guarded => 0
  | .ok .entry | .ok .exempt | .error _ => flag

variable {p : Program} {config : PassConfig} {g : CallPathGraph} {max : UInt32}
  {flag entry : Word} {sites : List PlannedSite} {r : FlagRecord}
  {items : List (InstId × Nat)} {plan : FlagPlan} {F : FunctionId}

/-! ## Planning -/

/-- The call sites of a record are planned in their order, each with what the program and the graph
say about it. -/
theorem planSites_ok (h : planSites p g r items = .ok sites) :
    sites.map (·.site.id) = items.map Prod.fst ∧ ∀ s ∈ sites, (s.site.id, s.bit) ∈ items ∧
      p.callSite s.site.id = .ok s.site ∧ g.role s.site.id = .ok s.role ∧
      s.argMask = r.argMask s.site.id := by
  induction items generalizing sites with
  | nil =>
    obtain rfl := Except.ok.inj h
    simp
  | cons item rest ih =>
    obtain ⟨id, bit⟩ := item
    rw [planSites, bind_eq_ok] at h
    obtain ⟨site, hsite, h⟩ := h
    rw [bind_eq_ok] at h
    obtain ⟨role, hrole, h⟩ := h
    rw [bind_eq_ok] at h
    obtain ⟨later, hlater, h⟩ := h
    obtain rfl := Except.ok.inj h
    obtain ⟨hids, hsites⟩ := ih hlater
    obtain rfl := Program.callSite_id hsite
    refine ⟨by rw [List.map_cons, List.map_cons, hids], fun s hs => ?_⟩
    rcases List.mem_cons.1 hs with rfl | hs
    · exact ⟨List.mem_cons_self, hsite, hrole, rfl⟩
    · obtain ⟨hitem, hspec⟩ := hsites s hs
      exact ⟨List.mem_cons_of_mem _ hitem, hspec⟩

/-- Call sites that the program and the graph know can be planned. -/
theorem exists_planSites (h : ∀ item ∈ items, ∃ site role, p.callSite item.1 = .ok site ∧
    g.role item.1 = .ok role) : ∃ sites, planSites p g r items = .ok sites := by
  induction items with
  | nil => exact ⟨[], rfl⟩
  | cons item rest ih =>
    obtain ⟨site, role, hsite, hrole⟩ := h item List.mem_cons_self
    obtain ⟨sites, hsites⟩ := ih fun item' h' => h item' (List.mem_cons_of_mem _ h')
    refine ⟨⟨site, item.2, role, r.argMask item.1⟩ :: sites, ?_⟩
    rw [planSites, hsite, hrole, hsites]
    rfl

/-- Every plan of some records is that of one of them, and every record has a plan. -/
theorem planRecords_ok {ε : Type} {planOne : FlagRecord → Except ε FunctionPlan}
    {records : List FlagRecord} {plans : OrderedMap FunctionId FunctionPlan}
    (h : planRecords planOne records = .ok plans) :
    (∀ F f, plans.get? F = some f → ∃ r ∈ records, r.function = F ∧ planOne r = .ok f) ∧
    ∀ r ∈ records, (plans.get? r.function).isSome = true := by
  induction records generalizing plans with
  | nil =>
    obtain rfl := Except.ok.inj h
    simp
  | cons first rest ih =>
    rw [planRecords, bind_eq_ok] at h
    obtain ⟨f₀, hfirst, h⟩ := h
    rw [bind_eq_ok] at h
    obtain ⟨later, hlater, h⟩ := h
    obtain rfl := Except.ok.inj h
    obtain ⟨hplans, hrecords⟩ := ih hlater
    simp only [OrderedMap.get?_insert, rank_eq_iff]
    constructor
    · intro F f hf
      split at hf
      · rename_i hF
        obtain rfl := Option.some.inj hf
        exact ⟨first, List.mem_cons_self, hF.symm, hfirst⟩
      · obtain ⟨r, hr, hspec⟩ := hplans F f hf
        exact ⟨r, List.mem_cons_of_mem _ hr, hspec⟩
    · intro r hr
      split
      · rfl
      · rename_i hne
        rcases List.mem_cons.1 hr with rfl | hr
        · exact absurd rfl hne
        · exact hrecords r hr

/-- Records are planned up to the first one that has no plan. -/
theorem errorOf?_planRecords {ε : Type} {planOne : FlagRecord → Except ε FunctionPlan}
    {records : List FlagRecord} (done : List FlagRecord) : errorOf? (planRecords planOne records) =
      firstFailure? (fun _ r => errorOf? (planOne r)) done records := by
  induction records generalizing done with
  | nil => rfl
  | cons first rest ih =>
    rw [planRecords, firstFailure?, ← ih (done ++ [first])]
    refine errorOf?_bind fun f _ => ?_
    cases planRecords planOne rest with
    | error e => rfl
    | ok plans => rfl

/-- Records can be planned together when they can be planned one by one. -/
theorem exists_planRecords_iff {ε : Type} {planOne : FlagRecord → Except ε FunctionPlan}
    {records : List FlagRecord} : (∃ plans, planRecords planOne records = .ok plans) ↔
      ∀ r ∈ records, ∃ f, planOne r = .ok f := by
  rw [← errorOf?_eq_none_iff, errorOf?_planRecords [], firstFailure?_eq_none_iff]
  simp only [errorOf?_eq_none_iff]

/-- Planning records fails as it does for the first one that cannot be planned. -/
theorem planRecords_eq_error_iff {ε : Type} {planOne : FlagRecord → Except ε FunctionPlan}
    {records : List FlagRecord} {e : ε} : planRecords planOne records = .error e ↔
      ∃ before r after, records = before ++ r :: after ∧
        (∀ r' ∈ before, ∃ f, planOne r' = .ok f) ∧ planOne r = .error e := by
  rw [← errorOf?_eq_some_iff, errorOf?_planRecords [], firstFailure?_eq_some_iff]
  simp only [firstFailure?_eq_none_iff, errorOf?_eq_none_iff, errorOf?_eq_some_iff]

/-- Where records are found under their own functions, the functions with a plan are those with a
flag record, and each is planned from its record. -/
theorem function?_of_planFlags (hfunction : ∀ {F r}, g.record? F = some r → r.function = F)
    (h : planFlags p config g = .ok plan) :
    (g.record? F = none → plan.function? F = none) ∧
    ∀ r, g.record? F = some r → ∃ function sites, p.function F = .ok function ∧
      plan.function? F = some (planOf config function sites) ∧
      planSites p g r r.callSites.zipIdx = .ok sites := by
  rw [planFlags, bind_eq_ok] at h
  obtain ⟨plans, hplans, h⟩ := h
  obtain rfl := Except.ok.inj h
  obtain ⟨hfound, hrecords⟩ := planRecords_ok hplans
  -- A record is found under its own function, so it is the only one that is planned for it.
  have hvalues : ∀ r ∈ g.records.values, g.record? r.function = some r := by
    intro r hr
    obtain ⟨k, hk⟩ := OrderedMap.mem_values_iff.1 hr
    rw [hfunction hk]
    exact hk
  constructor
  · intro hnone
    change plans.get? F = none
    rw [Option.eq_none_iff_forall_ne_some]
    intro f hf
    obtain ⟨r, hr, rfl, -⟩ := hfound F f hf
    rw [hvalues r hr] at hnone
    simp at hnone
  · intro r hr
    obtain ⟨f, hf⟩ := Option.isSome_iff_exists.1
      (hrecords r (OrderedMap.mem_values_iff.2 ⟨F, hr⟩))
    rw [hfunction hr] at hf
    obtain ⟨r', hr', rfl, hplan⟩ := hfound F f hf
    obtain rfl : r' = r := Option.some.inj ((hvalues r' hr').symm.trans hr)
    rw [planFunction, bind_eq_ok] at hplan
    obtain ⟨function, hdeclared, hplan⟩ := hplan
    rw [bind_eq_ok] at hplan
    obtain ⟨sites, hsites, hplan⟩ := hplan
    obtain rfl := Except.ok.inj hplan
    exact ⟨function, sites, hdeclared, hf, hsites⟩

/-- A plan uses the registers that the settings name. -/
theorem symbols_of_planFlags (h : planFlags p config g = .ok plan) :
    plan.flagSymbol = config.flagSymbol ∧ plan.typeTagSymbol = config.typeTagSymbol := by
  rw [planFlags, bind_eq_ok] at h
  obtain ⟨plans, -, h⟩ := h
  obtain rfl := Except.ok.inj h
  exact ⟨rfl, rfl⟩

/-- A graph with a registry has a plan. -/
theorem exists_planFlags (hreg : g.Registry p max) : ∃ plan, planFlags p config g = .ok plan := by
  have hplans : ∃ plans,
      planRecords (planFunction p config g) g.records.values = .ok plans := by
    refine exists_planRecords_iff.2 fun r hr => ?_
    obtain ⟨F, hF⟩ := OrderedMap.mem_values_iff.1 hr
    have hsites : ∀ s ∈ r.callSites, ∃ site, p.callSite s = .ok site ∧ site.function = F ∧
        g.contains s = true := by
      intro s hs
      have hnode := hreg.mem_nodes_iff.2 ⟨r, hF, hs⟩
      obtain ⟨site, hsite, hfunction⟩ := hreg.callSite_of_node hnode
      exact ⟨site, hsite, hfunction, CallPathGraph.contains_iff.2 ⟨_, hnode, rfl⟩⟩
    -- A record has a call site, so its function is that of a call and is declared.
    obtain ⟨s, hs⟩ := List.exists_mem_of_ne_nil _ (hreg.record_ne_nil hF)
    obtain ⟨site, hsite, hfunction, -⟩ := hsites s hs
    obtain ⟨function, hdeclared⟩ := Program.function_of_callSite hsite
    rw [hfunction, ← hreg.record_function hF] at hdeclared
    have hplanned : ∃ planned, planSites p g r r.callSites.zipIdx = .ok planned := by
      refine exists_planSites fun item hitem => ?_
      obtain ⟨site, hsite, -, hcontains⟩ := hsites item.1 (List.fst_mem_of_mem_zipIdx hitem)
      exact ⟨site, _, hsite, CallPathGraph.role_eq_ok hcontains⟩
    obtain ⟨planned, hplanned⟩ := hplanned
    exact ⟨planOf config function planned, by rw [planFunction, hdeclared, hplanned]; rfl⟩
  obtain ⟨plans, hplans⟩ := hplans
  exact ⟨⟨config.flagSymbol, config.typeTagSymbol, plans⟩, by rw [planFlags, hplans]; rfl⟩

/-! ## The plan of a graph -/

/-- A call site with a node is planned with its role, its bit and its mask. -/
theorem planned_of_contains (hreg : g.Registry p max) (h : planFlags p config g = .ok plan)
    {site : CallSite} (hsite : p.callSite site.id = .ok site)
    (hnode : g.contains site.id = true) : ∃ function sites s,
      plan.function? site.function = some (planOf config function sites) ∧
      (sites.map (·.site.id)).Nodup ∧ s ∈ sites ∧ s.site.id = site.id ∧
      g.role site.id = .ok s.role ∧ s.bit = g.bitOf site ∧ s.argMask = g.argMask site := by
  obtain ⟨r, hr, hmem⟩ := (hreg.contains_iff_registered hsite).1 hnode
  obtain ⟨function, sites, -, hfunction, hsites⟩ :=
    (function?_of_planFlags hreg.record_function h).2 r hr
  obtain ⟨hids, hspec⟩ := planSites_ok hsites
  rw [List.zipIdx_map_fst] at hids
  obtain ⟨s, hs, hsid⟩ := List.mem_map.1 (hids ▸ hmem)
  obtain ⟨hitem, -, hrole, hmask⟩ := hspec s hs
  rw [hsid] at hitem hrole hmask
  refine ⟨function, sites, s, hfunction, hids ▸ hreg.record_nodup hr, hs, hsid, hrole, ?_, ?_⟩
  · -- The bit of a call site is its position in the record.
    have hbit := FlagRecord.bit?_of_mem_zipIdx (hreg.record_nodup hr) hitem
    rw [CallPathGraph.bitOf, hr, Option.bind_some, hbit, Option.getD_some]
  · rw [hmask, CallPathGraph.argMask, CallPathGraph.recordOrNew, hr, Option.getD_some]

/-- Every function with a plan is planned from call sites with the roles that the graph says. -/
theorem exists_planOf_of_mem_functions (hreg : g.Registry p max)
    (h : planFlags p config g = .ok plan) {f : FunctionPlan} (hf : f ∈ plan.functions.values) :
    ∃ function sites, f = planOf config function sites ∧
      ∀ s ∈ sites, g.role s.site.id = .ok s.role := by
  obtain ⟨F, hF⟩ := OrderedMap.mem_values_iff.1 hf
  change plan.function? F = some f at hF
  obtain ⟨hnone, hsome⟩ := function?_of_planFlags (F := F) hreg.record_function h
  cases hr : g.record? F with
  | none =>
    rw [hnone hr] at hF
    simp at hF
  | some r =>
    obtain ⟨function, sites, -, hfunction, hsites⟩ := hsome r hr
    refine ⟨function, sites, ?_, fun s hs => ((planSites_ok hsites).2 s hs).2.2.1⟩
    exact Option.some.inj (hF.symm.trans hfunction)

/-- No operation belongs to a call site without a node. -/
theorem untouched_of_not_contains (hreg : g.Registry p max) (h : planFlags p config g = .ok plan)
    {site : CallSite} (hsite : p.callSite site.id = .ok site)
    (hnode : g.contains site.id ≠ true) (l : FlagLocals) (flag : Word) :
    plan.before site.function site.id l flag = some flag ∧
      plan.after site.function site.id flag = flag := by
  obtain ⟨hnone, hsome⟩ := function?_of_planFlags (F := site.function) hreg.record_function h
  cases hr : g.record? site.function with
  | none =>
    rw [FlagPlan.before, FlagPlan.after, hnone hr]
    exact ⟨rfl, rfl⟩
  | some r =>
    obtain ⟨function, sites, -, hfunction, hsites⟩ := hsome r hr
    have hids := (planSites_ok hsites).1
    rw [List.zipIdx_map_fst] at hids
    have hunplanned : site.id ∉ sites.map (·.site.id) := by
      rw [hids]
      exact fun hmem => hnode ((hreg.contains_iff_registered hsite).2 ⟨r, hr, hmem⟩)
    rw [FlagPlan.before, FlagPlan.after, hfunction]
    exact ⟨before_planOf_of_not_mem hunplanned, after_planOf_of_not_mem hunplanned⟩

/-- A call leaves the flag alone unless its call site is an entry or guarded. -/
theorem CallPathGraph.flagBefore_eq_self {site : CallSite} (hentry : g.role site.id ≠ .ok .entry)
    (hguarded : g.role site.id ≠ .ok .guarded) : g.flagBefore site entry flag = flag := by
  unfold flagBefore
  split
  · rename_i hrole
    exact absurd hrole hentry
  · rename_i hrole
    exact absurd hrole hguarded
  · rfl
  · rfl

/-- A call at a call site without a node leaves the flag alone. -/
theorem CallPathGraph.flagBefore_of_not_contains {site : CallSite}
    (hnode : g.contains site.id ≠ true) : g.flagBefore site entry flag = flag :=
  flagBefore_eq_self (fun hrole => hnode (contains_of_role hrole))
    fun hrole => hnode (contains_of_role hrole)

/-- A return to a guarded call site clears the flag. -/
theorem CallPathGraph.flagAfter_of_guarded {site : CallSite}
    (hguarded : g.role site.id = .ok .guarded) : g.flagAfter site flag = 0 := by
  rw [flagAfter, hguarded]

/-- A return to a call site that is not guarded leaves the flag alone. -/
theorem CallPathGraph.flagAfter_eq_self {site : CallSite}
    (hguarded : g.role site.id ≠ .ok .guarded) : g.flagAfter site flag = flag := by
  unfold flagAfter
  split
  · rename_i hrole
    exact absurd hrole hguarded
  · rfl
  · rfl
  · rfl

/-- A return to a call site without a node leaves the flag alone. -/
theorem CallPathGraph.flagAfter_of_not_contains {site : CallSite}
    (hnode : g.contains site.id ≠ true) : g.flagAfter site flag = flag :=
  flagAfter_eq_self fun hrole => hnode (contains_of_role hrole)

/-- Before a call the plan of a graph does what the role of the call site says. -/
theorem FlagPlan.before_enter (hreg : g.Registry p max) (h : planFlags p config g = .ok plan)
    {site : CallSite} (hsite : p.callSite site.id = .ok site) :
    plan.before site.function site.id (plan.enter site.function entry) flag =
      some (g.flagBefore site entry flag) := by
  by_cases hnode : g.contains site.id = true
  · obtain ⟨function, sites, s, hfunction, hnodup, hs, hsid, hrole, hbit, hmask⟩ :=
      planned_of_contains hreg h hsite hnode
    rw [CallPathGraph.flagBefore, hrole, FlagPlan.before, FlagPlan.enter, hfunction, ← hsid, ← hbit,
      ← hmask]
    refine (before_planOf hnodup hs).trans ?_
    rw [PlannedSite.flagBefore]
    cases s.role with
    | entry => rfl
    | exempt => rfl
    | guarded => rfl
  · rw [CallPathGraph.flagBefore_of_not_contains hnode]
    exact (untouched_of_not_contains hreg h hsite hnode _ flag).1

/-- After a call the plan of a graph does what the role of the call site says. -/
theorem FlagPlan.after_eq (hreg : g.Registry p max) (h : planFlags p config g = .ok plan)
    {site : CallSite} (hsite : p.callSite site.id = .ok site) :
    plan.after site.function site.id flag = g.flagAfter site flag := by
  by_cases hnode : g.contains site.id = true
  · obtain ⟨function, sites, s, hfunction, hnodup, hs, hsid, hrole, -, -⟩ :=
      planned_of_contains hreg h hsite hnode
    rw [CallPathGraph.flagAfter, hrole, FlagPlan.after, hfunction, ← hsid]
    refine (after_planOf hnodup hs).trans ?_
    rw [PlannedSite.flagAfter]
    cases s.role with
    | entry => rfl
    | exempt => rfl
    | guarded => rfl
  · rw [CallPathGraph.flagAfter_of_not_contains hnode]
    exact (untouched_of_not_contains hreg h hsite hnode .initial flag).2

end HeapDomains
