import HeapDomains.Classification
import HeapDomains.Proofs.Except
import HeapDomains.Proofs.Mention

/-!
# The allocations of a classification

Which allocations a classification holds: those that are reported, each in its context, in the order
of their first report (`paths_ofFacts`). The later stages of a classification leave them alone.
-/

namespace HeapDomains

/-- The call sites of an allocation from the call that allocates outwards. -/
def AllocationSite.path (site : AllocationSite) : List InstId := site.callSite :: site.context

/-- The reported paths without repetition, in the order of their first report. -/
def Facts.distinctPaths (facts : Facts) : List (List InstId) :=
  (facts.reachableAllocations.map (·.path)).eraseDups

namespace Classification

variable {p : Program} {facts : Facts} {c : Classification}

/-- A classification holds the allocations of some paths, in the order of their first mention. -/
structure HoldsPaths (p : Program) (paths : List (List InstId)) (c : Classification) : Prop where
  /-- The paths of the allocations are those that were mentioned. -/
  paths_eq : c.allocations.map (·.path) = paths.eraseDups
  /-- All but the context of an allocation is what the program says of its call site. -/
  callSite_eq : ∀ a ∈ c.allocations, ∃ site, p.callSite a.callSite = .ok site ∧
    a = ⟨site.id, site.function, site.callee?, a.context⟩

/-- An allocation is held already exactly when its path is. -/
theorem HoldsPaths.mem_allocations_iff {paths : List (List InstId)} (h : HoldsPaths p paths c)
    {s : InstId} {site : CallSite} (hsite : p.callSite s = .ok site) {context : List InstId} :
    (⟨site.id, site.function, site.callee?, context⟩ : AllocationSite) ∈ c.allocations ↔
      s :: context ∈ paths := by
  have hid : site.id = s := Program.callSite_id hsite
  have hpaths : s :: context ∈ paths ↔ s :: context ∈ c.allocations.map (·.path) := by
    rw [h.paths_eq, List.mem_eraseDups]
  rw [hpaths, List.mem_map]
  constructor
  · intro hmem
    exact ⟨_, hmem, by rw [AllocationSite.path, hid]⟩
  · rintro ⟨a, ha, hpath⟩
    -- An allocation with this path is made at the same call site, so it is the same one.
    obtain ⟨rfl, rfl⟩ := List.cons.inj hpath
    obtain ⟨found, hfound, heq⟩ := h.callSite_eq a ha
    obtain rfl : found = site := Except.ok.inj (hfound.symm.trans hsite)
    rw [← heq]
    exact ha

/-- A reported allocation adds its path, unless it is held already. -/
theorem HoldsPaths.step {paths : List (List InstId)} (h : HoldsPaths p paths c)
    {c' : Classification} {report : ReachableAllocation}
    (hstep : classifyAllocation p c report = .ok c') :
    HoldsPaths p (paths ++ [report.path]) c' := by
  unfold classifyAllocation at hstep
  split at hstep
  · simp at hstep
  · rename_i site hsite
    obtain rfl := Except.ok.inj hstep
    have hid : site.id = report.location := Program.callSite_id hsite
    have hpath : (⟨site.id, site.function, site.callee?, report.context⟩ : AllocationSite).path =
        report.path := by
      rw [AllocationSite.path, hid, ReachableAllocation.path]
    have hheld : ⟨site.id, site.function, site.callee?, report.context⟩ ∈ c.allocations ↔
        report.path ∈ paths := h.mem_allocations_iff hsite
    unfold addAllocation isNewAllocation
    by_cases hmem : report.path ∈ paths
    · rw [List.contains_iff_mem.2 (hheld.2 hmem), Bool.not_true, if_neg Bool.false_ne_true]
      exact ⟨by rw [eraseDups_concat, if_pos hmem]; exact h.paths_eq, h.callSite_eq⟩
    · have hnew : c.allocations.contains ⟨site.id, site.function, site.callee?, report.context⟩ =
          false := by
        rw [← Bool.not_eq_true, List.contains_iff_mem]
        exact fun hin => hmem (hheld.1 hin)
      rw [hnew, Bool.not_false, if_pos rfl]
      refine ⟨?_, fun a ha => ?_⟩
      · rw [eraseDups_concat, if_neg hmem, ← h.paths_eq, ← hpath]
        exact List.map_append
      · rcases List.mem_append.1 ha with ha | ha
        · exact h.callSite_eq a ha
        · obtain rfl := List.mem_singleton.1 ha
          exact ⟨site, Program.callSite_self hsite, rfl⟩

/-- A tainted stack slot adds no allocation. -/
theorem allocations_classifyTainted {c' : Classification} {alloca : InstId}
    (h : classifyTainted p c alloca = .ok c') :
    c'.allocations = c.allocations ∧ c'.exposedSites = c.exposedSites := by
  unfold classifyTainted at h
  split at h
  · simp at h
  · split at h
    · obtain rfl := Except.ok.inj h
      exact ⟨rfl, rfl⟩
    · obtain rfl := Except.ok.inj h
      exact ⟨rfl, rfl⟩

/-- An object that a boundary pointer may point to adds no allocation. -/
theorem allocations_classifyObject (object : MemoryObject) :
    (classifyObject p c object).allocations = c.allocations ∧
      (classifyObject p c object).exposedSites = c.exposedSites := by
  unfold classifyObject
  split
  · exact ⟨rfl, rfl⟩
  · split
    · exact ⟨rfl, rfl⟩
    · exact ⟨rfl, rfl⟩

/-- A pointer adds no allocation. -/
theorem allocations_classifyPointer (value : PointerValue) :
    (classifyPointer p facts c value).allocations = c.allocations ∧
      (classifyPointer p facts c value).exposedSites = c.exposedSites := by
  unfold classifyPointer
  split
  · refine List.foldlRecOn _ _ (motive := fun c' => Classification.allocations c' = c.allocations ∧
      Classification.exposedSites c' = c.exposedSites) ⟨rfl, rfl⟩ fun c' hc' object _ => ?_
    obtain ⟨hallocations, hsites⟩ := allocations_classifyObject (p := p) (c := c') object
    exact ⟨hallocations.trans hc'.1, hsites.trans hc'.2⟩
  · exact ⟨rfl, rfl⟩

/-- The allocations of a classification are there after its first stage; the two later ones leave
them alone. -/
theorem allocations_of_ofFacts (h : ofFacts p facts = .ok c) :
    ∃ c₁, facts.reachableAllocations.foldlM (classifyAllocation p) empty = .ok c₁ ∧
      c.allocations = c₁.allocations ∧ c.exposedSites = c₁.exposedSites := by
  rw [ofFacts, bind_eq_ok] at h
  obtain ⟨c₁, hc₁, h⟩ := h
  rw [bind_eq_ok] at h
  obtain ⟨c₂, hc₂, h⟩ := h
  obtain rfl := Except.ok.inj h
  have htainted : c₂.allocations = c₁.allocations ∧ c₂.exposedSites = c₁.exposedSites := by
    refine foldlM_invariant (P := fun _ c' => Classification.allocations c' = c₁.allocations ∧
      Classification.exposedSites c' = c₁.exposedSites) ⟨rfl, rfl⟩ ?_ hc₂
    intro _ _ b b' hb hstep
    obtain ⟨hallocations, hsites⟩ := allocations_classifyTainted hstep
    exact ⟨hallocations.trans hb.1, hsites.trans hb.2⟩
  refine ⟨c₁, hc₁, ?_⟩
  refine List.foldlRecOn _ _ (motive := fun c' => Classification.allocations c' = c₁.allocations ∧
    Classification.exposedSites c' = c₁.exposedSites) htainted fun c' hc' value _ => ?_
  obtain ⟨hallocations, hsites⟩ :
      (classifyPointer p facts c' value).allocations = c'.allocations ∧
        (classifyPointer p facts c' value).exposedSites = c'.exposedSites :=
    allocations_classifyPointer value
  exact ⟨hallocations.trans hc'.1, hsites.trans hc'.2⟩

/-- A classification holds the reported paths. -/
theorem holdsPaths_ofFacts (h : ofFacts p facts = .ok c) :
    HoldsPaths p (facts.reachableAllocations.map (·.path)) c := by
  obtain ⟨c₁, hc₁, hallocations, -⟩ := allocations_of_ofFacts h
  have hreported : HoldsPaths p (facts.reachableAllocations.map (·.path)) c₁ := by
    refine foldlM_invariant (P := fun done c' => HoldsPaths p (done.map (·.path)) c')
      ⟨rfl, fun a ha => absurd ha List.not_mem_nil⟩ ?_ hc₁
    intro done report b b' hb hstep
    rw [List.map_append]
    exact hb.step hstep
  constructor
  · rw [hallocations, hreported.paths_eq]
  · rw [hallocations]
    exact hreported.callSite_eq

/-- A classification holds the reported paths without repetition, in the order of their first
report. -/
theorem paths_ofFacts (h : ofFacts p facts = .ok c) :
    c.allocations.map (·.path) = facts.distinctPaths := by
  rw [(holdsPaths_ofFacts h).paths_eq, Facts.distinctPaths]

/-- The paths that a classification holds are those of the reported allocations. -/
theorem mem_paths_ofFacts (h : ofFacts p facts = .ok c) {path : List InstId} :
    (∃ a ∈ c.allocations, a.path = path) ↔
      ∃ report ∈ facts.reachableAllocations, report.path = path := by
  rw [← List.mem_map, paths_ofFacts h, Facts.distinctPaths, List.mem_eraseDups, List.mem_map]

/-! ## Failures -/

/-- A reported allocation cannot be added when its location is not found as a call site. -/
theorem errorOf?_classifyAllocation {report : ReachableAllocation} :
    errorOf? (classifyAllocation p c report) = errorOf? (p.callSite report.location) := by
  unfold classifyAllocation
  cases p.callSite report.location with
  | error violation => rfl
  | ok site => rfl

/-- A tainted stack slot cannot be added when it is not found as an instruction. -/
theorem errorOf?_classifyTainted {alloca : InstId} :
    errorOf? (classifyTainted p c alloca) = errorOf? (p.instruction alloca) := by
  unfold classifyTainted
  cases p.instruction alloca with
  | error violation => rfl
  | ok inst =>
    dsimp only
    split
    · rfl
    · rfl

/-- Facts cannot be classified when some location is not found, or else some tainted stack slot, and
the first one is reported. -/
theorem errorOf?_ofFacts : errorOf? (ofFacts p facts) =
    (firstFailure? (fun _ report => errorOf? (p.callSite report.location)) []
      facts.reachableAllocations).or
    (firstFailure? (fun _ alloca => errorOf? (p.instruction alloca)) []
      facts.taintedStackObjects) := by
  have hpointers : ∀ c₁ c₂, facts.taintedStackObjects.foldlM (classifyTainted p) c₁ = .ok c₂ →
      errorOf? (pure (p.pointerValues.foldl (classifyPointer p facts) c₂) :
        Except InvariantViolation Classification) = none := fun _ _ _ => rfl
  have htainted : ∀ c₁, facts.reachableAllocations.foldlM (classifyAllocation p) empty = .ok c₁ →
      errorOf? (facts.taintedStackObjects.foldlM (classifyTainted p) c₁ >>= fun c₂ =>
        pure (p.pointerValues.foldl (classifyPointer p facts) c₂)) =
      firstFailure? (fun _ alloca => errorOf? (p.instruction alloca)) []
        facts.taintedStackObjects := by
    intro c₁ _
    rw [errorOf?_bind (hpointers c₁), Option.or_none]
    exact errorOf?_foldlM (P := fun _ _ => True) (fun _ _ _ _ => errorOf?_classifyTainted)
      (fun _ _ _ _ _ _ => trivial) trivial
  have hreported : errorOf? (facts.reachableAllocations.foldlM (classifyAllocation p) empty) =
      firstFailure? (fun _ report => errorOf? (p.callSite report.location)) []
        facts.reachableAllocations :=
    errorOf?_foldlM (P := fun _ _ => True) (fun _ _ _ _ => errorOf?_classifyAllocation)
      (fun _ _ _ _ _ _ => trivial) trivial
  rw [ofFacts, errorOf?_bind htainted, hreported]

end Classification

/-! ## An example -/

/-- Three functions that call each other down to an allocation: the first allocates at two places,
the second calls the first at two places, the third calls the second. -/
def relay : Program where
  functions := [⟨⟨0⟩, "allocating", ⟨0⟩⟩, ⟨⟨1⟩, "passing", ⟨10⟩⟩, ⟨⟨2⟩, "entering", ⟨20⟩⟩]
  instructions := [
    ⟨⟨1⟩, ⟨0⟩, ⟨0⟩, .call (.direct ⟨9⟩) .plain, []⟩,
    ⟨⟨2⟩, ⟨0⟩, ⟨0⟩, .call (.direct ⟨9⟩) .plain, []⟩,
    ⟨⟨3⟩, ⟨1⟩, ⟨10⟩, .call (.direct ⟨0⟩) .plain, []⟩,
    ⟨⟨4⟩, ⟨1⟩, ⟨10⟩, .call (.direct ⟨0⟩) .plain, []⟩,
    ⟨⟨5⟩, ⟨2⟩, ⟨20⟩, .call (.direct ⟨1⟩) .plain, []⟩]
  pointerValues := []
  consistent := by decide

/-- Each of the two places is reached through one of the calls in the middle from outside, and the
second one also from the other call, where the path ends. -/
def relayFacts : Facts :=
  { Facts.empty with
    reachableAllocations := [⟨⟨1⟩, [⟨3⟩, ⟨5⟩]⟩, ⟨⟨2⟩, [⟨4⟩, ⟨5⟩]⟩, ⟨⟨2⟩, [⟨3⟩]⟩] }

end HeapDomains
