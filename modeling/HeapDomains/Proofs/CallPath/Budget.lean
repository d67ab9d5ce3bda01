import HeapDomains.Proofs.CallPath.ArgBits

/-!
# Flag bits in the order of first mention

The builder gives the bits of a function to its call sites in the order in which the paths first
mention them (`Walk.callSites_eq`), whichever of them come back on later paths. So it can say of
each call site from those mentioned before whether a bit is left for it: `Program.siteOffence?` does
so without a graph, and the builder fails where that finds the first offence (`errorOf?_build`).
`Program.Fits` is what it means that there is none; it does not depend on the order of the mentions.
-/

namespace HeapDomains

namespace Program

/-- What is wrong with a number that is mentioned after others as that of a call site: no call has
it, or it is that of one call site of its function too many. -/
def siteOffence? (p : Program) (max : UInt32) (before : List InstId) (s : InstId) :
    Option InvariantViolation :=
  match p.callSite s with
  | .error violation => some violation
  | .ok site =>
    if max.toNat < (p.sitesOf site.function (before ++ [s])).length then
      some (.flagBitsExhausted site.function max)
    else none

/-- Each of some numbers is that of a call, and no function makes more of these calls than there are
flag bits. -/
structure Fits (p : Program) (max : UInt32) (sites : List InstId) : Prop where
  /-- Each is the number of a call. -/
  isCallSite : ∀ s ∈ sites, p.IsCallSite s
  /-- A function makes as many of the calls as there are flag bits at most. -/
  length_le : ∀ F, (p.sitesOf F sites).length ≤ max.toNat

variable {p : Program} {max : UInt32} {before sites later : List InstId} {s : InstId}
  {violation : InvariantViolation}

/-- An offence is that no call has the number, or that a function has no bit left for its call. -/
theorem siteOffence?_eq_some_iff : p.siteOffence? max before s = some violation ↔
    p.CallOffence s violation ∨ ∃ site, p.callSite s = .ok site ∧
      max.toNat < (p.sitesOf site.function (before ++ [s])).length ∧
      violation = .flagBitsExhausted site.function max := by
  rw [← callSite_eq_error_iff, siteOffence?]
  cases p.callSite s with
  | error other => simp
  | ok site => simp [eq_comm]

/-- Whether numbers fit depends on which they are only. -/
theorem Fits.congr (h : ∀ s, s ∈ sites ↔ s ∈ later) : p.Fits max sites ↔ p.Fits max later := by
  constructor
  · intro hfits
    exact ⟨fun s hs => hfits.isCallSite s ((h s).2 hs), fun F =>
      (sitesOf_perm h).length_eq ▸ hfits.length_le F⟩
  · intro hfits
    exact ⟨fun s hs => hfits.isCallSite s ((h s).1 hs), fun F =>
      (sitesOf_perm h).length_eq.symm ▸ hfits.length_le F⟩

/-- Numbers still fit when later ones are left out. -/
theorem Fits.of_prefix (h : p.Fits max later) (hpre : sites <+: later) : p.Fits max sites :=
  ⟨fun s hs => h.isCallSite s (hpre.subset hs), fun F =>
    Nat.le_trans (prefix_sitesOf hpre).length_le (h.length_le F)⟩

/-- A number has no offence when it fits together with those before it. -/
theorem siteOffence?_eq_none_iff (h : p.Fits max before) :
    p.siteOffence? max before s = none ↔ p.Fits max (before ++ [s]) := by
  constructor
  · intro hnone
    rw [siteOffence?] at hnone
    split at hnone
    · simp at hnone
    · rename_i site hsite
      rw [ite_eq_right_iff] at hnone
      constructor
      · intro x hx
        rcases List.mem_append.1 hx with hx | hx
        · exact h.isCallSite x hx
        · obtain rfl := List.mem_singleton.1 hx
          exact exists_callSite_iff.1 ⟨site, hsite⟩
      · intro F
        by_cases hF : F = site.function
        · subst hF
          exact Nat.le_of_not_lt fun hlt => Option.some_ne_none _ (hnone hlt)
        -- The call is made from another function, so nothing is added.
        · rw [sitesOf_concat hsite, if_neg fun hnew => hF hnew.1]
          exact h.length_le F
  · intro hfits
    obtain ⟨site, hsite⟩ := exists_callSite_iff.2 (hfits.isCallSite s (by simp))
    have hle := hfits.length_le site.function
    rw [siteOffence?, hsite]
    exact if_neg (by omega)

/-- Numbers have no offence one after the other when they fit. -/
theorem firstFailure?_siteOffence?_eq_none_iff :
    firstFailure? (p.siteOffence? max) [] sites = none ↔ p.Fits max sites := by
  -- The numbers are tested from the front, so the last one is taken off.
  induction sites using List.reverseRecOn with
  | nil => exact iff_of_true rfl ⟨fun s hs => absurd hs List.not_mem_nil, fun F => Nat.zero_le _⟩
  | append_singleton rest s ih =>
    rw [firstFailure?_append, Option.or_eq_none_iff, ih, firstFailure?, firstFailure?,
      Option.or_none, List.nil_append]
    constructor
    · rintro ⟨hfits, hnone⟩
      exact (siteOffence?_eq_none_iff hfits).1 hnone
    · intro hfits
      have hrest := hfits.of_prefix (List.prefix_append rest [s])
      exact ⟨hrest, (siteOffence?_eq_none_iff hrest).2 hfits⟩

end Program

namespace CallPathGraph

variable {p : Program} {config : PassConfig} {c : Classification} {max : UInt32}
  {g : CallPathGraph} {done : List AllocationSite} {path before levels : List InstId}
  {position : Option CallSite} {site inner outer : CallSite} {s : InstId} {b : Nat}
  {F : FunctionId}

/-- All along a walk the record of a function lists its call sites in the order in which the paths
first mention them. -/
theorem Walk.callSites_eq (h : Walk p max done path position g) (F : FunctionId) :
    (g.recordOrNew F).callSites = p.sitesOf F (done.flatMap (·.path) ++ path) := by
  induction h with
  | empty => rfl
  | start _ hs hregister ih =>
    have hcallSites := callSites_register hregister F
    rw [Program.callSite_id hs, ih, List.append_nil] at hcallSites
    rw [recordAllocator_eq, Program.sitesOf_concat hs]
    exact hcallSites
  | level _ hs hlevel ih =>
    obtain ⟨g₁, hregister, -, hrecords, -⟩ := addLevel_ok hlevel
    have hcallSites := callSites_register hregister F
    rw [Program.callSite_id hs, ih] at hcallSites
    rw [recordOrNew, record?, hrecords, ← List.append_assoc, Program.sitesOf_concat hs]
    exact hcallSites
  | finish _ ih =>
    rw [List.flatMap_append, List.flatMap_singleton, List.append_nil]
    exact ih

/-- A record of a graph that is built lists the call sites of its function in the order in which the
paths of the classification first mention them. -/
theorem callSites_of_build (h : build p config c = .ok g) (F : FunctionId) :
    (g.recordOrNew F).callSites = p.sitesOf F (c.allocations.flatMap (·.path)) := by
  obtain ⟨g₀, hwalk, rfl⟩ := walk_of_build h
  have hcallSites := hwalk.callSites_eq F
  rw [List.append_nil] at hcallSites
  rw [exemptBy_eq]
  exact hcallSites

/-! ## Failures -/

/-- Registration fails where the call site is one too many after those mentioned before. -/
theorem Walk.errorOf?_register (h : Walk p max done path position g)
    (hs : p.callSite s = .ok site) :
    errorOf? (g.register max site b) =
      p.siteOffence? max (done.flatMap (·.path) ++ path) s := by
  obtain ⟨hfunction, -, hle, -⟩ := h.registry.recordOrNew_spec site.function
  rw [CallPathGraph.errorOf?_register, FlagRecord.errorOf?_assign, Program.siteOffence?, hs,
    hfunction, Program.callSite_id hs]
  rw [h.callSites_eq] at hle ⊢
  dsimp only
  have hlist : p.sitesOf site.function (done.flatMap (·.path) ++ path ++ [s]) = _ :=
    Program.sitesOf_concat hs
  -- The list of call sites only gets too long when the call site is new and the list is full.
  by_cases hnew : s ∉ p.sitesOf site.function (done.flatMap (·.path) ++ path)
  · rw [if_pos ⟨rfl, hnew⟩] at hlist
    rw [hlist, List.length_append, List.length_singleton]
    refine if_congr ?_ rfl rfl
    rw [and_iff_right hnew]
    omega
  · rw [if_neg fun hadd => hnew hadd.2] at hlist
    rw [hlist, if_neg fun hfull => hnew hfull.1, if_neg (by omega)]

/-- Adding a level fails where the registration of the outer call site does. -/
theorem Walk.errorOf?_addLevel (h : Walk p max done path (some inner) g)
    (hs : p.callSite s = .ok outer) : errorOf? (g.addLevel max inner outer) =
      p.siteOffence? max (done.flatMap (·.path) ++ path) s := by
  have hregistered : ∀ g₁, g.register max outer (g.bitOf inner) = .ok g₁ →
      errorOf? (g₁.link inner.id outer.id >>= fun g₂ =>
        pure ((g₂.markHeapMove outer.id).recordCall inner outer)) = none := by
    intro g₁ hg₁
    -- Both call sites have a node by now, so the edge can be added.
    have hcontains := fun s => h.registry.contains_register (s := s) (Program.callSite_self hs) hg₁
    obtain ⟨g₂, hlink⟩ := exists_link ((hcontains inner.id).2 (Or.inr h.contains))
      ((hcontains outer.id).2 (Or.inl rfl))
    rw [hlink]
    rfl
  rw [addLevel, errorOf?_bind hregistered, Option.or_none, h.errorOf?_register hs]

/-- Adding the rest of a path fails at its first call site with an offence. -/
theorem Walk.errorOf?_addContext (h : Walk p max done path (some inner) g) :
    errorOf? (addContext p max g inner levels) =
      firstFailure? (p.siteOffence? max) (done.flatMap (·.path) ++ path) levels := by
  induction levels generalizing path g inner with
  | nil => rfl
  | cons level rest ih =>
    rw [firstFailure?, addContext]
    cases hlookup : p.callSite level with
    | error violation =>
      rw [Program.siteOffence?, hlookup]
      rfl
    | ok outer =>
      have hrest : ∀ g₁, g.addLevel max inner outer = .ok g₁ →
          errorOf? (addContext p max g₁ outer rest) =
            firstFailure? (p.siteOffence? max)
              (done.flatMap (·.path) ++ path ++ [level]) rest := by
        intro g₁ hg₁
        rw [ih (.level h hlookup hg₁), List.append_assoc]
      rw [← h.errorOf?_addLevel hlookup, ← errorOf?_bind hrest]
      rfl

/-- Adding a path fails at its first call site with an offence. -/
theorem Walk.errorOf?_addPath (h : Walk p max done [] none g) {a : AllocationSite} :
    errorOf? (addPath p max g a) =
      firstFailure? (p.siteOffence? max) (done.flatMap (·.path)) a.path := by
  rw [AllocationSite.path, firstFailure?, addPath]
  cases hlookup : p.callSite a.callSite with
  | error violation =>
    rw [Program.siteOffence?, hlookup]
    rfl
  | ok alloc =>
    have hrest : ∀ g₁, g.register max alloc 0 = .ok g₁ →
        errorOf? (addContext p max (g₁.recordAllocator alloc) alloc a.context) =
          firstFailure? (p.siteOffence? max) (done.flatMap (·.path) ++ [a.callSite]) a.context :=
      fun g₁ hg₁ => Walk.errorOf?_addContext (.start h hlookup hg₁)
    have hregister := h.errorOf?_register (b := 0) hlookup
    rw [List.append_nil] at hregister
    rw [← hregister, ← errorOf?_bind hrest]
    rfl

/-- A graph cannot be built when some call site on the paths of the classification has an offence,
and the first one is reported. -/
theorem errorOf?_build : errorOf? (build p config c) =
    firstFailure? (p.siteOffence? config.maxFlagBits) [] (c.allocations.flatMap (·.path)) := by
  have hpaths : errorOf? (c.allocations.foldlM (addPath p config.maxFlagBits) empty) =
      firstFailure? (fun done (a : AllocationSite) =>
        firstFailure? (p.siteOffence? config.maxFlagBits) (done.flatMap (·.path)) a.path) []
        c.allocations :=
    errorOf?_foldlM (P := fun done g => Walk p config.maxFlagBits done [] none g)
      (fun _ _ _ hwalk => hwalk.errorOf?_addPath) (fun _ _ _ _ hwalk => walk_of_addPath hwalk)
      .empty
  have hexempt : ∀ g, c.allocations.foldlM (addPath p config.maxFlagBits) empty = .ok g →
      errorOf? (pure (g.exemptBy config.exemption) : Except InvariantViolation _) = none :=
    fun _ _ => rfl
  rw [build, errorOf?_bind hexempt, Option.or_none, hpaths, firstFailure?_flatMap]
  rfl

end CallPathGraph

end HeapDomains
