import HeapDomains.Proofs.Flag.Frames
import HeapDomains.Proofs.Flag.Roles
import HeapDomains.Proofs.Report

/-!
# Exactness of guarded calls

Where call sites are guarded, the flag is raised for the reported ways to an allocation and for no
other. `FlagPlan.replay` runs a plan along a chain of calls, each made from the frame that the one
further out has entered. When contexts are made of direct calls, the flag bits that a call raises
belong to the function it enters, so a call site finds its own bit in the mask of the call further
out exactly when the two are neighbours in the graph (`has_argMask_iff_outward`); and so the
flag is raised at the end of a chain exactly when edges lead from there to the innermost entry.
-/

namespace HeapDomains

/-- The flag right before the innermost call of a chain, of which the outermost call is made from a
frame that is entered with a given flag. -/
def FlagPlan.replay (p : Program) (plan : FlagPlan) (flag : Word) : List InstId → Option Word
  | [] => some flag
  | s :: outer =>
    (plan.replay p flag outer).bind fun entry =>
      match p.callSite s with
      | .ok site => plan.before site.function s (plan.enter site.function entry) entry
      | .error _ => none

/-- The call one level further out is a direct call of the function that the inner one is made
from. -/
def Program.DirectlyOutward (p : Program) (inner outer : InstId) : Prop :=
  ∃ i o, p.callSite inner = .ok i ∧ p.callSite outer = .ok o ∧ o.target = .direct i.function

variable {p : Program} {config : PassConfig} {facts : Facts} {c : Classification}
  {g : CallPathGraph} {plan : FlagPlan} {site outer : CallSite} {flag : Word} {n : Nat}
  {path : List InstId} {s : InstId}

/-- A replay is what an execution does that goes down a chain of calls and never returns. -/
theorem exists_run_of_replay {flag' : Word} (h : plan.replay p flag path = some flag')
    (callee : FunctionId) : ∃ root events s, plan.run p (plan.start root flag) events = some s ∧
      s.sites = path ∧ s.flag = flag' ∧ s.frame = plan.frame callee flag' := by
  induction path generalizing flag' callee with
  | nil =>
    obtain rfl := Option.some.inj h
    exact ⟨callee, [], _, rfl, rfl, rfl, rfl⟩
  | cons id rest ih =>
    obtain ⟨entry, hentry, h⟩ := Option.bind_eq_some_iff.1 h
    split at h
    · rename_i site hsite
      -- The calls further out have entered the function that this one is made from.
      obtain ⟨root, events, s, hrun, rfl, rfl, hframe⟩ := ih hentry site.function
      refine ⟨root, events ++ [.call id callee], ⟨flag', plan.frame callee flag',
        (id, s.frame) :: s.callers⟩, FlagPlan.run_concat.2 ⟨s, hrun, ?_⟩, rfl, rfl, rfl⟩
      have hfunction : site.function = s.frame.function := by rw [hframe]; rfl
      have hlocals : s.frame.locals = plan.enter site.function s.flag := by rw [hframe]; rfl
      rw [FlagPlan.step, hsite]
      dsimp only
      rw [FlagPlan.call, if_pos hfunction, ← hfunction, hlocals, Program.callSite_id hsite, h]
      rfl
    · simp at h

/-- The innermost call of a chain is made with the flag that the role of its call site says. -/
theorem FlagPlan.replay_cons {max : UInt32} {entry : Word} {rest : List InstId}
    (hreg : g.Registry p max) (hplan : planFlags p config g = .ok plan)
    (hsite : p.callSite site.id = .ok site) (hrest : plan.replay p flag rest = some entry) :
    plan.replay p flag (site.id :: rest) = some (g.flagBefore site entry entry) := by
  rw [replay, hrest, Option.bind_some, hsite]
  exact before_enter hreg hplan hsite

/-! ## Bits of direct calls -/

namespace CallPathGraph

/-- The bits of different call sites of one function are different. -/
theorem id_eq_of_bit? (hfunction : site.function = outer.function) (hn : g.bit? site = some n)
    (hn' : g.bit? outer = some n) : site.id = outer.id := by
  rw [bit?, hfunction] at hn
  obtain ⟨r, hr, hbit⟩ := Option.bind_eq_some_iff.1 hn
  obtain ⟨r', hr', hbit'⟩ := Option.bind_eq_some_iff.1 hn'
  obtain rfl : r = r' := Option.some.inj (hr.symm.trans hr')
  exact FlagRecord.bit?_inj hbit hbit'

/-- When contexts are made of direct calls, a call site of the function that an outer call enters
finds its bit in the mask of that call exactly when the two are neighbours. -/
theorem has_argMask_iff_outward (hvalid : config.validated = .ok config)
    (hc : Classification.ofFacts p facts = .ok c) (hg : build p config c = .ok g)
    (hdirect : ∀ report ∈ facts.reachableAllocations, report.path.IsChain p.DirectlyOutward)
    (hsite : p.callSite site.id = .ok site) (hnode : g.contains site.id = true)
    (houter : p.callSite outer.id = .ok outer) (htarget : outer.target = .direct site.function)
    (hcontext : ∀ report ∈ facts.reachableAllocations, report.location ≠ outer.id) :
    (g.argMask outer).has (g.bitOf site) = true ↔ g.Outward site.id outer.id := by
  refine ⟨fun hset => ?_, has_argMask_of_outward hvalid hg hsite houter⟩
  obtain ⟨n, hn⟩ := Option.isSome_iff_exists.1
    (((registry_of_build hg).contains_iff_isSome_bit? hsite).1 hnode)
  rw [has_bitOf_argMask_iff hvalid hg houter hn,
    (argBitsMirror_of_build hg).mem_argBits_iff houter] at hset
  rcases hset with ⟨i, inner, hedge, hinner, hbit⟩ | ⟨-, hlocation⟩
  · -- The neighbour that owns the bit is in the function that is called, so it is the call site.
    obtain ⟨report, hreport, hpair⟩ := (outward_iff_reported hc hg).1 hedge
    have hpath : [i, outer.id].IsChain p.DirectlyOutward :=
      List.IsChain.infix (hdirect report hreport) hpair
    obtain ⟨i', o', hi', ho', hcalled⟩ := (List.isChain_cons_cons.1 hpath).1
    obtain rfl : inner = i' := Except.ok.inj (hinner.symm.trans hi')
    obtain rfl : outer = o' := Except.ok.inj (houter.symm.trans ho')
    rw [htarget] at hcalled
    have hid := id_eq_of_bit? (CallTarget.direct.inj hcalled) hn hbit
    rw [hid, Program.callSite_id hinner]
    exact hedge
  · obtain ⟨report, hreport, hsame⟩ := (mem_locations hc).1 hlocation
    exact absurd hsame (hcontext report hreport)

end CallPathGraph

/-! ## Chains of calls -/

/-- Along a chain of direct calls the flag is handed from the innermost entry along edges, and is
zero when there is none. -/
theorem replay_spec (hvalid : config.validated = .ok config)
    (hexemption : config.exemption = .disabled)
    (hc : Classification.ofFacts p facts = .ok c) (hg : CallPathGraph.build p config c = .ok g)
    (hplan : planFlags p config g = .ok plan)
    (hdirect : ∀ report ∈ facts.reachableAllocations, report.path.IsChain p.DirectlyOutward)
    (hnodes : ∀ s ∈ path, g.contains s = true) (hchain : path.IsChain p.DirectlyOutward)
    (hcontext : ∀ s ∈ path.tail, ∀ report ∈ facts.reachableAllocations, report.location ≠ s) :
    ∃ flag, plan.replay p 0 path = some flag ∧ g.Handed p path flag ∧
      (¬ g.Covered path → flag = 0) := by
  induction path with
  | nil =>
    refine ⟨0, rfl, ?_, fun _ => rfl⟩
    intro hcovered
    cases hcovered
  | cons id rest ih =>
    obtain ⟨entry, hreplay, hhanded, hzero⟩ := ih
      (fun s hs => hnodes s (List.mem_cons_of_mem _ hs)) hchain.tail
      (fun s hs => hcontext s (List.mem_of_mem_tail hs))
    have hreg := CallPathGraph.registry_of_build hg
    obtain ⟨site, hsite⟩ := hreg.callSite_of_contains (hnodes id List.mem_cons_self)
    obtain rfl := Program.callSite_id hsite
    refine ⟨_, FlagPlan.replay_cons hreg hplan hsite hreplay,
      CallPathGraph.handed_flagBefore hvalid hg hexemption hsite hhanded, fun huncovered => ?_⟩
    -- Were the flag raised, edges would lead on to the entry that the rest of the chain has.
    have hentry : site.id ∉ g.entries := fun hs => huncovered (.entry hs)
    have hnode := hnodes site.id List.mem_cons_self
    rw [CallPathGraph.flagBefore_of_disabled hg hexemption hnode hentry]
    refine if_neg fun hset => huncovered ?_
    -- The bit is set, so the frame was handed the mask of the call further out.
    by_cases hcovered : g.Covered rest
    · obtain ⟨outer, houter, hhead, rfl⟩ := hhanded hcovered
      obtain ⟨later, rfl⟩ := List.head?_eq_some_iff.1 hhead
      obtain ⟨i, o, hi, ho, htarget⟩ := (List.isChain_cons_cons.1 hchain).1
      obtain rfl : site = i := Except.ok.inj (hsite.symm.trans hi)
      obtain rfl : outer = o := Except.ok.inj (houter.symm.trans ho)
      exact .outward ((CallPathGraph.has_argMask_iff_outward hvalid hc hg hdirect hsite hnode
        houter htarget (hcontext outer.id List.mem_cons_self)).1 hset) hcovered
    · rw [hzero hcovered, Word.has_zero] at hset
      simp at hset

/-- Along a chain of direct calls from a context down to a reported location the flag is raised at
the location exactly when the chain has an entry and edges lead to the innermost one; in particular
it is zero when the chain goes around every entry. -/
theorem replay_ne_zero_iff (hvalid : config.validated = .ok config)
    (hexemption : config.exemption = .disabled) {report : Report}
    (hreport : p.analyse config facts = .ok report)
    (hc : Classification.ofFacts p facts = .ok c) (hg : CallPathGraph.build p config c = .ok g)
    (hdirect : ∀ report ∈ facts.reachableAllocations, report.path.IsChain p.DirectlyOutward)
    (hdisjoint : ∀ report ∈ facts.reachableAllocations,
      ∀ report' ∈ facts.reachableAllocations, report.location ∉ report'.context)
    {s₀ : InstId} {outer : List InstId}
    (hlocation : ∃ report ∈ facts.reachableAllocations, report.location = s₀)
    (hcontext : ∀ s ∈ outer, ∃ report ∈ facts.reachableAllocations, s ∈ report.context)
    (hchain : (s₀ :: outer).IsChain p.DirectlyOutward) :
    ∃ flag, report.plan.replay p 0 (s₀ :: outer) = some flag ∧
      (flag ≠ 0 ↔ ∃ inner e rest, s₀ :: outer = inner ++ e :: rest ∧ e ∈ report.entries ∧
        (∀ s ∈ inner, s ∉ report.entries) ∧ (inner ++ [e]).IsChain g.Outward) ∧
      ((∀ s ∈ s₀ :: outer, s ∉ report.entries) → flag = 0) := by
  obtain ⟨hplan, hentries, -⟩ := Program.report_of_build hreport hc hg
  rw [hentries, ← CallPathGraph.covered_iff]
  have hnodes : ∀ s ∈ s₀ :: outer, g.contains s = true := by
    intro s hs
    rw [CallPathGraph.contains_iff_reported hc hg]
    rcases List.mem_cons.1 hs with rfl | hs
    · obtain ⟨report, hreport, rfl⟩ := hlocation
      exact ⟨report, hreport, List.mem_cons_self⟩
    · obtain ⟨report, hreport, hmem⟩ := hcontext s hs
      exact ⟨report, hreport, List.mem_cons_of_mem _ hmem⟩
  -- Every call but the innermost one is in a context, and no location is.
  have hnoLocation : ∀ s ∈ outer, ∀ report ∈ facts.reachableAllocations, report.location ≠ s := by
    rintro s hs report hreport rfl
    obtain ⟨report', hreport', hmem⟩ := hcontext _ hs
    exact hdisjoint report hreport report' hreport' hmem
  obtain ⟨flag, hreplay, hhanded, hzero⟩ :=
    replay_spec hvalid hexemption hc hg hplan hdirect hnodes hchain hnoLocation
  refine ⟨flag, hreplay, ⟨fun hflag => ?_, fun hcovered => ?_⟩, fun hnone => ?_⟩
  · exact Classical.byContradiction fun huncovered => hflag (hzero huncovered)
  · obtain ⟨site, hsite, hhead, rfl⟩ := hhanded hcovered
    refine CallPathGraph.argMask_ne_zero hvalid hg hsite (hnodes site.id ?_)
    exact List.mem_of_mem_head? hhead
  · refine hzero fun hcovered => ?_
    obtain ⟨e, he, hentry⟩ := hcovered.exists_mem_entries
    exact hnone e he hentry

/-- In the relay a chain that mixes two contexts goes from the allocation of the one through the
call in the middle of the other, which is no neighbour of the allocation. -/
theorem replay_ne_zero_iff_relay : ∃ c g report,
    Classification.ofFacts relay relayFacts = .ok c ∧
    CallPathGraph.build relay (.ofPreset .precise) c = .ok g ∧
    relay.analyse (.ofPreset .precise) relayFacts = .ok report ∧
    ∃ flag, report.plan.replay relay 0 [⟨1⟩, ⟨4⟩, ⟨5⟩] = some flag ∧
      (flag ≠ 0 ↔ ∃ inner e rest, [⟨1⟩, ⟨4⟩, ⟨5⟩] = inner ++ e :: rest ∧ e ∈ report.entries ∧
        (∀ s ∈ inner, s ∉ report.entries) ∧ (inner ++ [e]).IsChain g.Outward) ∧
      ((∀ s ∈ [⟨1⟩, ⟨4⟩, ⟨5⟩], s ∉ report.entries) → flag = 0) := by
  refine ⟨_, _, _, rfl, rfl, rfl, ?_⟩
  refine replay_ne_zero_iff (show (PassConfig.ofPreset .precise).validated = .ok _ from rfl) rfl
    (show relay.analyse _ relayFacts = .ok _ from rfl) rfl rfl ?_ (by decide) (by decide)
    (by decide) ?_
  · intro report hreport
    have hcases : report = ⟨⟨1⟩, [⟨3⟩, ⟨5⟩]⟩ ∨ report = ⟨⟨2⟩, [⟨4⟩, ⟨5⟩]⟩ ∨
        report = ⟨⟨2⟩, [⟨3⟩]⟩ := by simpa [relayFacts] using hreport
    rcases hcases with rfl | rfl | rfl
    · exact .cons_cons ⟨_, _, rfl, rfl, rfl⟩ (.cons_cons ⟨_, _, rfl, rfl, rfl⟩ (.singleton _))
    · exact .cons_cons ⟨_, _, rfl, rfl, rfl⟩ (.cons_cons ⟨_, _, rfl, rfl, rfl⟩ (.singleton _))
    · exact .cons_cons ⟨_, _, rfl, rfl, rfl⟩ (.singleton _)
  · exact .cons_cons ⟨_, _, rfl, rfl, rfl⟩ (.cons_cons ⟨_, _, rfl, rfl, rfl⟩ (.singleton _))

end HeapDomains
