import HeapDomains.Allocator.Slot
import HeapDomains.Proofs.Flag.Frames
import HeapDomains.Proofs.Flag.Roles
import HeapDomains.Proofs.Report

/-!
# Soundness of the flag

An allocation that is reached from an entry along edges is made with the flag raised, in every
execution of the planned program and whatever the flag was at the root. The two strategies keep
different invariants. Where call sites are guarded, a frame on a covered stack has been entered with
the mask of the call site below it (`Handed`), so the flag is handed from the entry inwards,
whatever was called and cleared in between. Where they are exempt, the flag is raised while an
entry is on the stack, as nothing ever clears it. `allocation_exposed_below_entry` draws the
conclusion for both, down to the heap that serves the allocation.
-/

namespace HeapDomains

variable {p : Program} {config : PassConfig} {facts : Facts} {c : Classification}
  {g : CallPathGraph} {plan : FlagPlan} {s : FlagState} {root callee : FunctionId} {flag : Word}
  {events : List FlagEvent}

/-! ## Guarded call sites -/

/-- All along an execution frames are handed the mask of the call site they were called from. -/
theorem entered_handed_of_run (hvalid : config.validated = .ok config)
    (hg : CallPathGraph.build p config c = .ok g) (hplan : planFlags p config g = .ok plan)
    (hexemption : config.exemption = .disabled)
    (hrun : plan.run p (plan.start root flag) events = some s) :
    s.Entered p plan (g.Handed p) := by
  -- Nothing is on the stack at the root, so nothing is covered.
  have hstart : (plan.start root flag).Entered p plan (g.Handed p) :=
    entered_start fun hcovered => nomatch hcovered
  exact entered_of_run (CallPathGraph.registry_of_build hg) hplan
    (CallPathGraph.handed_flagBefore hvalid hg hexemption) hstart hrun

/-! ## Exempt call sites -/

/-- All along an execution the flag is raised while an entry is on the stack. -/
theorem flag_ne_zero_of_entry_on_stack (hvalid : config.validated = .ok config)
    (hg : CallPathGraph.build p config c = .ok g) (hplan : planFlags p config g = .ok plan)
    (hexemption : config.exemption = .descendants)
    (hrun : plan.run p (plan.start root flag) events = some s)
    (hentry : ∃ e ∈ s.sites, e ∈ g.entries) : s.flag ≠ 0 := by
  suffices hboth : s.Entered p plan (fun _ _ => True) ∧
      ((∃ e ∈ s.sites, e ∈ g.entries) → s.flag ≠ 0) from hboth.2 hentry
  clear hentry
  refine FlagPlan.run_invariant (P := fun s => s.Entered p plan (fun _ _ => True) ∧
    ((∃ e ∈ s.sites, e ∈ g.entries) → s.flag ≠ 0)) ?_ ?_ hrun
  · rintro s event s' ⟨hs, hflag⟩ hstep
    rcases step_cases_of_frames (CallPathGraph.registry_of_build hg) hplan hs hstep with
      ⟨site, _, entry, -, hsite, -, hflag', hsites, hentered⟩ |
      ⟨site, -, -, hsites, hflag', hentered⟩
    -- A call at an entry raises the flag, and any other one leaves it as it was.
    · refine ⟨hentered trivial, ?_⟩
      rw [hsites, hflag']
      rintro ⟨e, he, hentries⟩
      by_cases hown : site.id ∈ g.entries
      · rw [CallPathGraph.flagBefore_of_mem_entries hg hown]
        exact CallPathGraph.argMask_ne_zero hvalid hg hsite
          (CallPathGraph.contains_of_mem_entries hg hown)
      · rw [CallPathGraph.flagBefore_of_descendants hg hexemption hown]
        rcases List.mem_cons.1 he with rfl | he
        · exact absurd hentries hown
        · exact hflag ⟨e, he, hentries⟩
    -- A return takes a call site from the stack and leaves the flag as it was.
    · refine ⟨hentered, ?_⟩
      rw [hflag', CallPathGraph.flagAfter_of_descendants hg hexemption]
      rintro ⟨e, he, hentries⟩
      exact hflag ⟨e, by rw [hsites]; exact List.mem_cons_of_mem _ he, hentries⟩
  · refine ⟨entered_start trivial, ?_⟩
    rintro ⟨e, he, -⟩
    simp [FlagPlan.start, FlagState.sites] at he

/-! ## Both strategies -/

/-- A call on a covered stack is made with the flag raised. -/
theorem flag_ne_zero_of_covered (hvalid : config.validated = .ok config)
    (hg : CallPathGraph.build p config c = .ok g) (hplan : planFlags p config g = .ok plan)
    {s₀ : InstId} (hrun : plan.run p (plan.start root flag) (events ++ [.call s₀ callee]) = some s)
    (hcovered : g.Covered s.sites) : s.flag ≠ 0 := by
  cases hexemption : config.exemption with
  | descendants =>
    exact flag_ne_zero_of_entry_on_stack hvalid hg hplan hexemption hrun
      hcovered.exists_mem_entries
  | disabled =>
    -- The frame that makes the call was handed a mask if its stack is covered, and hands it on.
    obtain ⟨mid, hmid, hstep⟩ := FlagPlan.run_concat.1 hrun
    have hentered := entered_handed_of_run hvalid hg hplan hexemption hmid
    rcases step_cases_of_frames (CallPathGraph.registry_of_build hg) hplan hentered hstep with
      ⟨site, _, entry, -, hsite, hentry, hflag, hsites, -⟩ | ⟨_, hevent, -⟩
    · rw [hsites] at hcovered
      have hhanded : g.Handed p (site.id :: mid.sites) (g.flagBefore site entry mid.flag) :=
        CallPathGraph.handed_flagBefore hvalid hg hexemption hsite hentry
      obtain ⟨found, hfound, hhead, hmask⟩ := hhanded hcovered
      rw [hflag, hmask]
      refine CallPathGraph.argMask_ne_zero hvalid hg hfound ?_
      rw [← Option.some.inj hhead]
      exact hcovered.contains hg
    · simp at hevent

/-- A raised flag places an allocation among the heaps for unsafe code, whatever its type tag,
except for the tag of the smart-pointer interface. -/
theorem domain_selectSlot_of_flag_ne_zero {tag : Word} {capacity : Nat} (htag : tag ≠ 1)
    (hflag : flag ≠ 0) : (selectSlot ⟨tag, flag⟩ capacity).domain = .exposed := by
  rw [selectSlot, if_neg htag]
  by_cases hforeign : tag = 0
  · rw [if_pos hforeign]
  · rw [if_neg hforeign, if_neg hflag]

/-- An allocation is made with the flag raised, and is served by the heaps for unsafe code, whenever
the innermost call sites on the stack lead along edges to an entry: in every execution of a program
that was planned under an accepted configuration, whatever the flag was at the root. -/
theorem allocation_exposed_below_entry (hvalid : config.validated = .ok config) {report : Report}
    (hreport : p.analyse config facts = .ok report)
    (hc : Classification.ofFacts p facts = .ok c) (hg : CallPathGraph.build p config c = .ok g)
    {s₀ e : InstId} {inner outer : List InstId}
    (hrun : report.plan.run p (report.plan.start root flag) (events ++ [.call s₀ callee]) = some s)
    (hsites : s.sites = inner ++ e :: outer) (hedges : (inner ++ [e]).IsChain g.Outward)
    (he : e ∈ report.entries) :
    s.flag ≠ 0 ∧ ∀ tag capacity, tag ≠ 1 →
      (selectSlot ⟨tag, s.flag⟩ capacity).domain = .exposed := by
  obtain ⟨hplan, hentries, -⟩ := Program.report_of_build hreport hc hg
  rw [hentries] at he
  have hflag : s.flag ≠ 0 := by
    refine flag_ne_zero_of_covered hvalid hg hplan hrun ?_
    rw [hsites]
    exact CallPathGraph.covered_of_isChain hedges he
  exact ⟨hflag, fun tag capacity htag => domain_selectSlot_of_flag_ne_zero htag hflag⟩

/-- In the relay the call that allocates is made through the call in the middle from the entry. -/
theorem allocation_exposed_below_entry_relay : ∃ c g report s,
    Classification.ofFacts relay relayFacts = .ok c ∧
    CallPathGraph.build relay (.ofPreset .precise) c = .ok g ∧
    relay.analyse (.ofPreset .precise) relayFacts = .ok report ∧
    report.plan.run relay (report.plan.start ⟨2⟩ 6)
      ([.call ⟨5⟩ ⟨1⟩, .call ⟨3⟩ ⟨0⟩] ++ [.call ⟨1⟩ ⟨9⟩]) = some s ∧
    s.sites = [⟨1⟩, ⟨3⟩] ++ ⟨5⟩ :: [] ∧ s.flag ≠ 0 ∧ ∀ tag capacity, tag ≠ 1 →
      (selectSlot ⟨tag, s.flag⟩ capacity).domain = .exposed := by
  refine ⟨_, _, _, _, rfl, rfl, rfl, rfl, rfl, ?_⟩
  refine allocation_exposed_below_entry
    (show (PassConfig.ofPreset .precise).validated = .ok _ from rfl)
    (show relay.analyse _ relayFacts = .ok _ from rfl) rfl rfl
    (show FlagPlan.run _ _ (FlagPlan.start _ ⟨2⟩ 6)
      ([.call ⟨5⟩ ⟨1⟩, .call ⟨3⟩ ⟨0⟩] ++ [.call ⟨1⟩ ⟨9⟩]) = some _ from rfl)
    (show _ = [⟨1⟩, ⟨3⟩] ++ ⟨5⟩ :: [] from rfl) ?_ ?_
  · refine .cons_cons ?_ (.cons_cons ?_ (.singleton _))
    · exact List.mem_of_elem_eq_true rfl
    · exact List.mem_of_elem_eq_true rfl
  · exact List.mem_of_elem_eq_true rfl

end HeapDomains
