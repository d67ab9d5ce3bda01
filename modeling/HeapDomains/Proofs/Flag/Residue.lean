import HeapDomains.Proofs.Flag.Exactness

/-!
# What a chain of calls leaves in the flag

A chain of calls stores its masks on the way down and clears the flag on the way back.
`FlagPlan.unwind` returns from the calls of a chain, and `FlagPlan.residue` is the flag after a
chain has been replayed and unwound. Only guarded calls clear the flag, so a chain leaves zero when
it has one. Otherwise nothing but entries have touched the flag, and the mask of the innermost one
is left (`residue_of_reported`).
-/

namespace HeapDomains

namespace FlagPlan

/-- The flag once the calls of a chain have returned, the innermost one first. -/
def unwind (p : Program) (plan : FlagPlan) (flag : Word) : List InstId → Option Word
  | [] => some flag
  | s :: outer =>
    match p.callSite s with
    | .ok site => plan.unwind p (plan.after site.function s flag) outer
    | .error _ => none

/-- The flag after a chain of calls has been made and all of them have returned. -/
def residue (p : Program) (plan : FlagPlan) (flag : Word) (path : List InstId) : Option Word :=
  (plan.replay p flag path).bind fun raised => plan.unwind p raised path

end FlagPlan

/-- A call site is that of the innermost call of a chain that is made at one of some call sites. -/
structure Program.IsInnermost (p : Program) (sites : OrderedSet InstId) (path : List InstId)
    (e : CallSite) : Prop where
  /-- It is a call site of the program. -/
  callSite_eq : p.callSite e.id = .ok e
  /-- It is one of the call sites. -/
  mem : e.id ∈ sites
  /-- It is on the chain, and no call further in is made at one of the call sites. -/
  exists_inner : ∃ inner outer, path = inner ++ e.id :: outer ∧ ∀ s ∈ inner, s ∉ sites

variable {p : Program} {config : PassConfig} {facts : Facts} {c : Classification}
  {g : CallPathGraph} {max : UInt32} {plan : FlagPlan} {s : FlagState} {flag left : Word}
  {path : List InstId}

/-- Unwinding the calls on the stack is what an execution does that returns from all of them. -/
theorem exists_run_of_unwind (hs : s.Entered p plan fun _ _ => True)
    (h : plan.unwind p s.flag s.sites = some left) :
    ∃ s', plan.run p s (List.replicate s.sites.length .ret) = some s' ∧ s'.sites = [] ∧
      s'.flag = left := by
  obtain ⟨flag, frame, callers⟩ := s
  induction callers generalizing flag frame with
  | nil => exact ⟨_, rfl, rfl, Option.some.inj h⟩
  | cons call callers ih =>
    obtain ⟨site, hsite, hid, hfunction, hcaller⟩ := hs.caller rfl
    obtain ⟨id, caller⟩ := call
    obtain rfl := hid
    change plan.unwind p flag (site.id :: callers.map Prod.fst) = some left at h
    rw [FlagPlan.unwind, hsite] at h
    -- The first return is to a frame of the call site's function, and clears the flag by its plan.
    dsimp only at h
    rw [hfunction] at h
    exact ih _ caller hcaller h

/-- What a chain leaves is left by an execution that goes down the chain and returns from all of its
calls. -/
theorem exists_run_of_residue (hreg : g.Registry p max) (hplan : planFlags p config g = .ok plan)
    (h : plan.residue p flag path = some left) : ∃ root calls s s',
      plan.run p (plan.start root flag) calls = some s ∧ s.sites = path ∧
      plan.run p s (List.replicate path.length .ret) = some s' ∧ s'.sites = [] ∧
      s'.flag = left := by
  obtain ⟨raised, hraised, hleft⟩ := Option.bind_eq_some_iff.1 h
  obtain ⟨root, calls, s, hcalls, rfl, rfl, -⟩ := exists_run_of_replay hraised ⟨0⟩
  have hs : s.Entered p plan fun _ _ => True :=
    entered_of_run hreg hplan (fun _ _ => trivial) (entered_start trivial) hcalls
  obtain ⟨s', hreturns, hsites, hflag⟩ := exists_run_of_unwind hs hleft
  exact ⟨root, calls, s, s', hcalls, rfl, hreturns, hsites, hflag⟩

/-- Going down a chain without guarded calls raises the mask of the innermost entry, and leaves the
flag alone when there is no entry. -/
theorem exists_replay (hg : CallPathGraph.build p config c = .ok g)
    (hplan : planFlags p config g = .ok plan) (hnodes : ∀ s ∈ path, g.contains s = true)
    (flag : Word) : ∃ raised, plan.replay p flag path = some raised ∧
      ((∀ s ∈ path, g.role s ≠ .ok .guarded) →
        ((∀ s ∈ path, s ∉ g.entries) ∧ raised = flag) ∨
        ∃ e, p.IsInnermost g.entries path e ∧ raised = g.argMask e) := by
  induction path with
  | nil => exact ⟨flag, rfl, fun _ => Or.inl ⟨List.forall_mem_nil _, rfl⟩⟩
  | cons id rest ih =>
    obtain ⟨entry, hreplay, hentry⟩ := ih fun s hs => hnodes s (List.mem_cons_of_mem _ hs)
    have hreg := CallPathGraph.registry_of_build hg
    obtain ⟨site, hsite⟩ := hreg.callSite_of_contains (hnodes id List.mem_cons_self)
    obtain rfl := Program.callSite_id hsite
    refine ⟨_, FlagPlan.replay_cons hreg hplan hsite hreplay, fun hnone => ?_⟩
    by_cases hs : site.id ∈ g.entries
    · rw [CallPathGraph.flagBefore_of_mem_entries hg hs]
      exact Or.inr ⟨site, ⟨hsite, hs, [], rest, rfl, List.forall_mem_nil _⟩, rfl⟩
    · -- The call is neither an entry nor guarded, so the flag is what the calls further out say.
      rw [CallPathGraph.flagBefore_of_unguarded hg hs (hnone site.id List.mem_cons_self)]
      rcases hentry fun s hs => hnone s (List.mem_cons_of_mem _ hs) with
        ⟨houter, rfl⟩ | ⟨e, ⟨he, hmem, inner, outer, rfl, hinner⟩, rfl⟩
      · exact Or.inl ⟨List.forall_mem_cons.2 ⟨hs, houter⟩, rfl⟩
      · exact Or.inr ⟨e, ⟨he, hmem, site.id :: inner, outer, rfl,
          List.forall_mem_cons.2 ⟨hs, hinner⟩⟩, rfl⟩

/-- The innermost call of a chain returns with the flag that the role of its call site says. -/
theorem FlagPlan.unwind_cons (hreg : g.Registry p max) (hplan : planFlags p config g = .ok plan)
    {site : CallSite} {rest : List InstId} (hsite : p.callSite site.id = .ok site) :
    plan.unwind p flag (site.id :: rest) = plan.unwind p (g.flagAfter site flag) rest := by
  rw [unwind, hsite]
  dsimp only
  rw [after_eq hreg hplan hsite]

/-- Returning from the calls of a chain clears the flag when one of them is guarded, and leaves it
alone otherwise. -/
theorem exists_unwind (hreg : g.Registry p max) (hplan : planFlags p config g = .ok plan)
    (hnodes : ∀ s ∈ path, g.contains s = true) (flag : Word) :
    ∃ left, plan.unwind p flag path = some left ∧
      ((∃ s ∈ path, g.role s = .ok .guarded) → left = 0) ∧
      ((∀ s ∈ path, g.role s ≠ .ok .guarded) → left = flag) := by
  induction path generalizing flag with
  | nil => exact ⟨flag, rfl, fun ⟨s, hs, _⟩ => absurd hs List.not_mem_nil, fun _ => rfl⟩
  | cons id rest ih =>
    obtain ⟨site, hsite⟩ := hreg.callSite_of_contains (hnodes id List.mem_cons_self)
    obtain rfl := Program.callSite_id hsite
    obtain ⟨left, hunwind, hcleared, hkept⟩ :=
      ih (fun s hs => hnodes s (List.mem_cons_of_mem _ hs)) (g.flagAfter site flag)
    refine ⟨left, (FlagPlan.unwind_cons hreg hplan hsite).trans hunwind, fun hguarded => ?_,
      fun hnone => ?_⟩
    · by_cases hrest : ∃ s ∈ rest, g.role s = .ok .guarded
      · exact hcleared hrest
      · -- The innermost call is the only guarded one, so those further out keep its zero.
        have hsite := ((List.exists_mem_cons_iff ..).1 hguarded).resolve_right hrest
        rw [hkept fun s hs hrole => hrest ⟨s, hs, hrole⟩,
          CallPathGraph.flagAfter_of_guarded hsite]
    · obtain ⟨hsite, hrest⟩ := List.forall_mem_cons.1 hnone
      rw [hkept hrest, CallPathGraph.flagAfter_eq_self hsite]

/-- Whatever the flag was, a reported chain of calls leaves zero when one of them is guarded, and
otherwise the mask of its innermost entry; where no call site is exempt, it leaves zero unless all
of them are entries. -/
theorem residue_of_reported (hvalid : config.validated = .ok config) {report : Report}
    (hreport : p.analyse config facts = .ok report)
    (hc : Classification.ofFacts p facts = .ok c) (hg : CallPathGraph.build p config c = .ok g)
    {a : ReachableAllocation} (ha : a ∈ facts.reachableAllocations) (flag : Word) :
    ∃ left, report.plan.residue p flag a.path = some left ∧
      ((∃ s ∈ a.path, g.role s = .ok .guarded) → left = 0) ∧
      ((∀ s ∈ a.path, g.role s ≠ .ok .guarded) →
        ∃ e, p.IsInnermost report.entries a.path e ∧ left = g.argMask e ∧ left ≠ 0) ∧
      (config.exemption = .disabled → (∃ s ∈ a.path, s ∉ report.entries) → left = 0) := by
  have hplan := (Program.eq_ofStages_of_build hreport hc hg).1
  rw [(showsGraph_of_analyse hreport hc hg).entries_eq]
  have hnodes : ∀ s ∈ a.path, g.contains s = true := fun s hs =>
    (CallPathGraph.contains_iff_reported hc hg).2 ⟨a, ha, hs⟩
  obtain ⟨raised, hreplay, hraised⟩ := exists_replay hg hplan hnodes flag
  obtain ⟨left, hunwind, hcleared, hkept⟩ :=
    exists_unwind (CallPathGraph.registry_of_build hg) hplan hnodes raised
  refine ⟨left, ?_, hcleared, fun hnone => ?_, fun hexemption ⟨s, hs, hentry⟩ => ?_⟩
  · rw [FlagPlan.residue, hreplay, Option.bind_some, hunwind]
  · -- The outermost call is an entry, so there is an innermost one.
    rcases hraised hnone with ⟨hentries, -⟩ | ⟨e, he, hmask⟩
    · have hlast := List.getLast?_eq_some_getLast (List.cons_ne_nil a.location a.context)
      exact absurd ((CallPathGraph.mem_entries_iff_reported hc hg).2 ⟨a, ha, hlast⟩)
        (hentries _ (List.getLast_mem _))
    · rw [hkept hnone, hmask]
      exact ⟨e, he, rfl, CallPathGraph.argMask_ne_zero hvalid hg he.callSite_eq
        (CallPathGraph.contains_of_mem_entries hg he.mem)⟩
  · exact hcleared ⟨s, hs, CallPathGraph.role_of_disabled hg hexemption (hnodes s hs) hentry⟩

/-- In the relay the entry of one chain stands in the middle of another, between an exempt
allocation and the entry outside. -/
theorem residue_of_reported_relay : ∃ c g report left,
    Classification.ofFacts relay relayFacts = .ok c ∧
    CallPathGraph.build relay .standard c = .ok g ∧
    relay.analyse .standard relayFacts = .ok report ∧
    report.plan.residue relay 6 [⟨1⟩, ⟨3⟩, ⟨5⟩] = some left ∧
    ((∃ s ∈ [⟨1⟩, ⟨3⟩, ⟨5⟩], g.role s = .ok .guarded) → left = 0) ∧
    ((∀ s ∈ [⟨1⟩, ⟨3⟩, ⟨5⟩], g.role s ≠ .ok .guarded) → ∃ e,
      relay.IsInnermost report.entries [⟨1⟩, ⟨3⟩, ⟨5⟩] e ∧ left = g.argMask e ∧ left ≠ 0) ∧
    (PassConfig.standard.exemption = .disabled →
      (∃ s ∈ [⟨1⟩, ⟨3⟩, ⟨5⟩], s ∉ report.entries) → left = 0) := by
  obtain ⟨left, hleft⟩ := residue_of_reported
    (show PassConfig.standard.validated = .ok _ from rfl)
    (show relay.analyse _ relayFacts = .ok _ from rfl) rfl rfl
    (show ⟨⟨1⟩, [⟨3⟩, ⟨5⟩]⟩ ∈ relayFacts.reachableAllocations from List.mem_cons_self) 6
  exact ⟨_, _, _, left, rfl, rfl, rfl, hleft⟩

end HeapDomains
