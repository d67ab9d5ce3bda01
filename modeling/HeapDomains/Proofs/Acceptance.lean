import HeapDomains.Proofs.CallPath.Budget
import HeapDomains.Proofs.Report

/-!
# Which facts are accepted

A run succeeds exactly when its facts fit the program: what is reported as a call is one, what is
reported as tainted is an instruction, and no function needs more flag bits than it may use. When
they do not fit, the run ends with the first offence in a fixed order, which `FirstOffence` lists:
locations, then tainted stack slots, then the paths, of which a repeated one is looked at once. The
stages after the call paths look everything up again and never fail, since all they look up was
looked up before.
-/

namespace HeapDomains

/-- The first offence of the facts, in the order in which a run looks at them. -/
inductive FirstOffence (p : Program) (max : UInt32) (facts : Facts) : InvariantViolation → Prop
  /-- A location is not that of a call, while those reported before are. -/
  | location {before after : List ReachableAllocation} {report : ReachableAllocation}
      {violation : InvariantViolation} :
    facts.reachableAllocations = before ++ report :: after →
    (∀ earlier ∈ before, p.IsCallSite earlier.location) →
    p.CallOffence report.location violation → FirstOffence p max facts violation
  /-- All locations are those of calls; a tainted stack slot is no instruction, but those before it
  are. -/
  | tainted {before after : List InstId} {alloca : InstId} :
    (∀ report ∈ facts.reachableAllocations, p.IsCallSite report.location) →
    facts.taintedStackObjects = before ++ alloca :: after →
    (∀ earlier ∈ before, p.IsInstruction earlier) →
    ¬ p.IsInstruction alloca → FirstOffence p max facts (.unknownInstruction alloca)
  /-- All locations and tainted stack slots are in order; on the paths stands what is not a call,
  and what is mentioned before it fits. -/
  | path {before after : List InstId} {s : InstId} {violation : InvariantViolation} :
    (∀ report ∈ facts.reachableAllocations, p.IsCallSite report.location) →
    (∀ alloca ∈ facts.taintedStackObjects, p.IsInstruction alloca) →
    facts.distinctPaths.flatten = before ++ s :: after → p.Fits max before →
    p.CallOffence s violation → FirstOffence p max facts violation
  /-- All locations and tainted stack slots are in order; on the paths stands the call that is one
  too many for its function, and what is mentioned before it fits. -/
  | budget {before after : List InstId} {s : InstId} {site : CallSite} :
    (∀ report ∈ facts.reachableAllocations, p.IsCallSite report.location) →
    (∀ alloca ∈ facts.taintedStackObjects, p.IsInstruction alloca) →
    facts.distinctPaths.flatten = before ++ s :: after → p.Fits max before →
    p.callSite s = .ok site → max.toNat < (p.sitesOf site.function (before ++ [s])).length →
    FirstOffence p max facts (.flagBitsExhausted site.function max)

variable {p : Program} {config : PassConfig} {facts : Facts} {max : UInt32}
  {violation : InvariantViolation}

/-- Locations are found when they are those of calls. -/
theorem locations_found_iff {reports : List ReachableAllocation} :
    firstFailure? (fun _ report => errorOf? (p.callSite report.location)) [] reports = none ↔
      ∀ report ∈ reports, p.IsCallSite report.location := by
  rw [firstFailure?_eq_none_iff]
  simp only [errorOf?_eq_none_iff, Program.exists_callSite_iff]

/-- Tainted stack slots are found when they are instructions. -/
theorem tainted_found_iff {tainted : List InstId} :
    firstFailure? (fun _ alloca => errorOf? (p.instruction alloca)) [] tainted = none ↔
      ∀ alloca ∈ tainted, p.IsInstruction alloca := by
  rw [firstFailure?_eq_none_iff]
  simp only [errorOf?_eq_none_iff, Program.exists_instruction_iff]

/-- A run fails at the first location, then at the first tainted stack slot that is not found, then
at the first call site with an offence on the paths. -/
theorem errorOf?_analyse : errorOf? (p.analyse config facts) =
    (errorOf? (Classification.ofFacts p facts)).or
      (firstFailure? (p.siteOffence? config.maxFlagBits) [] facts.distinctPaths.flatten) := by
  refine errorOf?_bind fun c hc => ?_
  have hplanned : ∀ g, CallPathGraph.build p config c = .ok g →
      errorOf? (planFlags p config g >>= fun plan =>
        pure (Report.ofStages c g plan (config.hardening.steps p))) = none := by
    intro g hg
    have hplan : ∃ plan, planFlags p config g = .ok plan :=
      exists_planFlags (CallPathGraph.registry_of_build hg)
    obtain ⟨plan, hplan⟩ := hplan
    rw [hplan]
    rfl
  rw [errorOf?_bind hplanned, Option.or_none, CallPathGraph.errorOf?_build,
    ← Classification.paths_ofFacts hc, List.flatMap_def]

/-- A run fails with the first offence of the facts. -/
theorem analyse_eq_error_iff : p.analyse config facts = .error violation ↔
    FirstOffence p config.maxFlagBits facts violation := by
  rw [← errorOf?_eq_some_iff, errorOf?_analyse, Option.or_eq_some_iff,
    Classification.errorOf?_ofFacts, Option.or_eq_some_iff, Option.or_eq_none_iff,
    locations_found_iff, tainted_found_iff]
  constructor
  · rintro ((hlocation | ⟨hlocations, htainted⟩) | ⟨⟨hlocations, htainted⟩, hpath⟩)
    · obtain ⟨before, report, after, hsplit, hbefore, herror⟩ :=
        firstFailure?_eq_some_iff.1 hlocation
      exact .location hsplit (locations_found_iff.1 hbefore)
        (Program.callSite_eq_error_iff.1 (errorOf?_eq_some_iff.1 herror))
    · obtain ⟨before, alloca, after, hsplit, hbefore, herror⟩ :=
        firstFailure?_eq_some_iff.1 htainted
      obtain ⟨rfl, hunknown⟩ :=
        Program.instruction_eq_error_iff.1 (errorOf?_eq_some_iff.1 herror)
      exact .tainted hlocations hsplit (tainted_found_iff.1 hbefore) hunknown
    · obtain ⟨before, s, after, hsplit, hbefore, herror⟩ := firstFailure?_eq_some_iff.1 hpath
      have hfits := Program.firstFailure?_siteOffence?_eq_none_iff.1 hbefore
      rcases Program.siteOffence?_eq_some_iff.1 herror with hoffence | ⟨site, hsite, hlt, rfl⟩
      · exact .path hlocations htainted hsplit hfits hoffence
      · exact .budget hlocations htainted hsplit hfits hsite hlt
  · intro hoffence
    cases hoffence with
    | @location before after report _ hsplit hbefore hcall =>
      have herror := errorOf?_eq_some_iff.2 (Program.callSite_eq_error_iff.2 hcall)
      exact Or.inl (Or.inl (firstFailure?_eq_some_iff.2
        ⟨before, report, after, hsplit, locations_found_iff.2 hbefore, herror⟩))
    | @tainted before after alloca hlocations hsplit hbefore hunknown =>
      have herror := errorOf?_eq_some_iff.2
        (Program.instruction_eq_error_iff.2 ⟨rfl, hunknown⟩)
      exact Or.inl (Or.inr ⟨hlocations, firstFailure?_eq_some_iff.2
        ⟨before, alloca, after, hsplit, tainted_found_iff.2 hbefore, herror⟩⟩)
    | @path before after s _ hlocations htainted hsplit hfits hcall =>
      exact Or.inr ⟨⟨hlocations, htainted⟩, firstFailure?_eq_some_iff.2 ⟨before, s, after, hsplit,
        Program.firstFailure?_siteOffence?_eq_none_iff.2 hfits,
        Program.siteOffence?_eq_some_iff.2 (Or.inl hcall)⟩⟩
    | @budget before after s site hlocations htainted hsplit hfits hsite hlt =>
      exact Or.inr ⟨⟨hlocations, htainted⟩, firstFailure?_eq_some_iff.2 ⟨before, s, after, hsplit,
        Program.firstFailure?_siteOffence?_eq_none_iff.2 hfits,
        Program.siteOffence?_eq_some_iff.2 (Or.inr ⟨site, hsite, hlt, rfl⟩)⟩⟩

/-- On the paths that are looked at stand the same call sites as on those that are reported. -/
theorem mem_flatten_distinctPaths {s : InstId} : s ∈ facts.distinctPaths.flatten ↔
    s ∈ facts.reachableAllocations.flatMap (·.path) := by
  simp [Facts.distinctPaths, List.mem_flatten, List.mem_flatMap]

/-- A run succeeds when what is reported as tainted is an instruction, and what stands on the
reported paths fits. -/
theorem exists_analyse_iff : (∃ report, p.analyse config facts = .ok report) ↔
    (∀ alloca ∈ facts.taintedStackObjects, p.IsInstruction alloca) ∧
      p.Fits config.maxFlagBits (facts.reachableAllocations.flatMap (·.path)) := by
  rw [← errorOf?_eq_none_iff, errorOf?_analyse, Option.or_eq_none_iff,
    Classification.errorOf?_ofFacts, Option.or_eq_none_iff, locations_found_iff, tainted_found_iff,
    Program.firstFailure?_siteOffence?_eq_none_iff,
    Program.Fits.congr fun s => mem_flatten_distinctPaths]
  constructor
  · rintro ⟨⟨-, htainted⟩, hfits⟩
    exact ⟨htainted, hfits⟩
  · rintro ⟨htainted, hfits⟩
    refine ⟨⟨fun report hreport => ?_, htainted⟩, hfits⟩
    exact hfits.isCallSite _ (List.mem_flatMap.2 ⟨report, hreport, List.mem_cons_self⟩)

/-- When runs accept facts, and how they fail otherwise. -/
structure DecidesAcceptance (p : Program) (config : PassConfig) (facts : Facts) : Prop where
  /-- A run succeeds when all that is reported as a call is one, all that is reported as tainted is
  an instruction, and of no function more call sites are reported than there are flag bits. -/
  succeeds_iff : (∃ report, p.analyse config facts = .ok report) ↔
    (∀ report ∈ facts.reachableAllocations, ∀ s ∈ report.path, p.IsCallSite s) ∧
    (∀ alloca ∈ facts.taintedStackObjects, p.IsInstruction alloca) ∧
    ∀ F, (p.sitesOf F (facts.reachableAllocations.flatMap (·.path))).length ≤
      config.maxFlagBits.toNat
  /-- Otherwise it ends with the first offence. -/
  error_iff : ∀ violation, p.analyse config facts = .error violation ↔
    FirstOffence p config.maxFlagBits facts violation
  /-- Such an error is fatal. -/
  isFatal : ∀ violation, p.analyse config facts = .error violation →
    (AnalysisError.invariant violation).isFatal = true
  /-- Planning the flag register never fails on a graph that is built. -/
  exists_plan : ∀ c g, CallPathGraph.build p config c = .ok g →
    ∃ plan, planFlags p config g = .ok plan

/-- Under every configuration a run succeeds when the facts fit the program, and ends with the first
offence of the facts otherwise. -/
theorem decidesAcceptance : DecidesAcceptance p config facts where
  succeeds_iff := by
    rw [exists_analyse_iff]
    constructor
    · rintro ⟨htainted, hfits⟩
      refine ⟨fun report hreport s hs => ?_, htainted, hfits.length_le⟩
      exact hfits.isCallSite s (List.mem_flatMap.2 ⟨report, hreport, hs⟩)
    · rintro ⟨hcalls, htainted, hlength⟩
      refine ⟨htainted, fun s hs => ?_, hlength⟩
      obtain ⟨report, hreport, hs⟩ := List.mem_flatMap.1 hs
      exact hcalls report hreport s hs
  error_iff _ := analyse_eq_error_iff
  isFatal _ _ := rfl
  exists_plan _ _ hg := exists_planFlags (CallPathGraph.registry_of_build hg)

/-- The relay fits into two flag bits for each function, and not into one. -/
example : (∃ report, relay.analyse { PassConfig.standard with maxFlagBits := 2 } relayFacts =
      .ok report) ∧
    relay.analyse { PassConfig.standard with maxFlagBits := 1 } relayFacts =
      .error (.flagBitsExhausted ⟨0⟩ 1) := ⟨⟨_, rfl⟩, rfl⟩

end HeapDomains
