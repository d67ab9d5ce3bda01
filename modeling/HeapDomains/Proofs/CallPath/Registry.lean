import HeapDomains.Proofs.CallPath.Walk

/-!
# Registered call sites

Nodes and flag records of a graph that is built say the same: a call site has a node exactly when it
has a bit in the record of its function, and in no other record. `Registry` states this together
with what makes bits usable: no call site is listed twice, no record is longer than the number of
bits, none is empty. Registration keeps it (`Registry.register`), the other steps touch neither
nodes nor records, and so it holds along every walk (`Walk.registry`).
-/

namespace HeapDomains

namespace CallPathGraph

/-- The nodes of a graph are the call sites in its flag records, each in that of its function. -/
structure Registry (p : Program) (max : UInt32) (g : CallPathGraph) : Prop where
  /-- A record is found under its own function. -/
  record_function : ∀ {F r}, g.record? F = some r → r.function = F
  /-- A record lists no call site twice. -/
  record_nodup : ∀ {F r}, g.record? F = some r → r.callSites.Nodup
  /-- A record has no more call sites than there are bits. -/
  record_length_le : ∀ {F r}, g.record? F = some r → r.callSites.length ≤ max.toNat
  /-- A record has a call site. -/
  record_ne_nil : ∀ {F r}, g.record? F = some r → r.callSites ≠ []
  /-- A node is a call site that is registered in the record of its function. -/
  mem_nodes_iff : ∀ {s F}, ⟨s, F⟩ ∈ g.nodes ↔ ∃ r, g.record? F = some r ∧ s ∈ r.callSites
  /-- A node belongs to the function of its call site. -/
  callSite_of_node : ∀ {s F}, ⟨s, F⟩ ∈ g.nodes → ∃ site, p.callSite s = .ok site ∧ site.function = F

variable {p : Program} {max : UInt32} {g g' : CallPathGraph} {site other : CallSite} {b n : Nat}
  {s : InstId} {F : FunctionId} {r : FlagRecord}

/-- Bits and argument bits only depend on the records. -/
theorem bit?_congr (h : g'.records = g.records) : g'.bit? site = g.bit? site := by
  rw [bit?, bit?, record?, record?, h]

/-- The bits that call sites raise only depend on the records. -/
theorem argBits_congr (h : g'.records = g.records) : g'.argBits site = g.argBits site := by
  rw [argBits, argBits, recordOrNew, recordOrNew, record?, record?, h]

/-- A call site has a bit when it is in the record of its function. -/
theorem isSome_bit? :
    (g.bit? site).isSome = true ↔
      ∃ r, g.record? site.function = some r ∧ site.id ∈ r.callSites := by
  unfold bit?
  cases g.record? site.function with
  | none => simp
  | some r => simp [FlagRecord.isSome_bit?]

/-! ## Registration -/

/-- Registration keeps the bits that are given out. -/
theorem bit?_register (h : g.register max site b = .ok g') (hbit : g.bit? other = some n) :
    g'.bit? other = some n := by
  obtain ⟨r, bit, hassign, hrecord, -⟩ := register_ok h
  unfold bit? at hbit ⊢
  rw [hrecord]
  by_cases hF : other.function = site.function
  · rw [hF] at hbit
    -- New call sites are put at the end of the record, which moves no other one.
    obtain ⟨old, hold, hbit⟩ := Option.bind_eq_some_iff.1 hbit
    rw [recordOrNew, hold, Option.getD_some] at hassign
    obtain ⟨later, hlater⟩ := FlagRecord.callSites_assign hassign
    rw [if_pos hF, Option.bind_some, FlagRecord.bit?_addArgBit]
    exact FlagRecord.bit?_append hbit hlater
  · rw [if_neg hF]
    exact hbit

/-- After registration a bit is raised if it is the new one or was raised before. -/
theorem mem_argBits_register (h : g.register max site b = .ok g')
    (hsite : p.callSite site.id = .ok site) (hother : p.callSite other.id = .ok other) :
    n ∈ g'.argBits other ↔ (other.id = site.id ∧ n = b) ∨ n ∈ g.argBits other := by
  obtain ⟨r, bit, hassign, hrecord, -⟩ := register_ok h
  obtain ⟨-, hargs⟩ := FlagRecord.argBits_assign hassign
  unfold argBits recordOrNew
  rw [hrecord]
  by_cases hF : other.function = site.function
  · rw [if_pos hF, Option.getD_some, FlagRecord.mem_argBitsOf_addArgBit, hF]
    have hsame : r.argBitsOf other.id = (g.recordOrNew site.function).argBitsOf other.id := by
      rw [FlagRecord.argBitsOf, FlagRecord.argBitsOf, hargs]
    rw [hsame, recordOrNew]
  · rw [if_neg hF]
    constructor
    · exact Or.inr
    · rintro (⟨hid, -⟩ | hn)
      · rw [hid, hsite] at hother
        exact absurd (congrArg CallSite.function (Except.ok.inj hother)).symm hF
      · exact hn

namespace Registry

/-- Without nodes there is nothing to register. -/
theorem empty : Registry p max CallPathGraph.empty where
  record_function h := by simp [CallPathGraph.empty, record?] at h
  record_nodup h := by simp [CallPathGraph.empty, record?] at h
  record_length_le h := by simp [CallPathGraph.empty, record?] at h
  record_ne_nil h := by simp [CallPathGraph.empty, record?] at h
  mem_nodes_iff := by simp [CallPathGraph.empty, record?]
  callSite_of_node h := by simp [CallPathGraph.empty] at h

/-- Steps that leave nodes and records alone keep the registry. -/
theorem congr (hg : Registry p max g) (hnodes : g'.nodes = g.nodes)
    (hrecords : g'.records = g.records) : Registry p max g' where
  record_function h := hg.record_function (by rwa [record?, hrecords] at h)
  record_nodup h := hg.record_nodup (by rwa [record?, hrecords] at h)
  record_length_le h := hg.record_length_le (by rwa [record?, hrecords] at h)
  record_ne_nil h := hg.record_ne_nil (by rwa [record?, hrecords] at h)
  mem_nodes_iff := by
    intro s F
    rw [hnodes, record?, hrecords]
    exact hg.mem_nodes_iff
  callSite_of_node h := hg.callSite_of_node (by rwa [hnodes] at h)

/-- A call site of the program has a node exactly when it has a bit. -/
theorem contains_iff_isSome_bit? (hg : Registry p max g) (hsite : p.callSite s = .ok site) :
    g.contains s = true ↔ (g.bit? site).isSome = true := by
  have hid := Program.callSite_id hsite
  rw [contains_iff, isSome_bit?, hid, ← hg.mem_nodes_iff]
  constructor
  · rintro ⟨⟨s', F⟩, hn, rfl⟩
    obtain ⟨found, hfound, hF⟩ := hg.callSite_of_node hn
    rw [hsite] at hfound
    rw [Except.ok.inj hfound, hF]
    exact hn
  · intro hn
    exact ⟨_, hn, rfl⟩

/-- A call site of the program has a node exactly when it is in the record of its function. -/
theorem contains_iff_registered (hg : Registry p max g) (hsite : p.callSite s = .ok site) :
    g.contains s = true ↔ ∃ r, g.record? site.function = some r ∧ s ∈ r.callSites := by
  rw [hg.contains_iff_isSome_bit? hsite, isSome_bit?, Program.callSite_id hsite]

/-- A call site with a node is a call site of the program. -/
theorem callSite_of_contains (hg : Registry p max g) (h : g.contains s = true) :
    ∃ site, p.callSite s = .ok site := by
  obtain ⟨⟨s', F⟩, hn, rfl⟩ := contains_iff.1 h
  obtain ⟨site, hsite, -⟩ := hg.callSite_of_node hn
  exact ⟨site, hsite⟩

/-- Bits are smaller than the number of bits. -/
theorem bit?_lt (hg : Registry p max g) (h : g.bit? site = some b) : b < max.toNat := by
  obtain ⟨r, hr, hbit⟩ := Option.bind_eq_some_iff.1 h
  have := FlagRecord.bit?_lt hbit
  have := hg.record_length_le hr
  omega

/-- The record that registration starts from, which may be new, is as the registry says. -/
theorem recordOrNew_spec (hg : Registry p max g) (F : FunctionId) :
    (g.recordOrNew F).function = F ∧ (g.recordOrNew F).callSites.Nodup ∧
      (g.recordOrNew F).callSites.length ≤ max.toNat ∧
      ∀ s, s ∈ (g.recordOrNew F).callSites ↔ ⟨s, F⟩ ∈ g.nodes := by
  simp only [hg.mem_nodes_iff]
  unfold recordOrNew
  cases hr : g.record? F with
  | none => simp [FlagRecord.new]
  | some r =>
    rw [Option.getD_some]
    exact ⟨hg.record_function hr, hg.record_nodup hr, hg.record_length_le hr, by simp⟩

/-- The nodes after registration are the new one and those from before. -/
theorem mem_nodes_register (hg : Registry p max g) (hsite : p.callSite site.id = .ok site)
    (h : g.register max site b = .ok g') {node : CallPathNode} :
    node ∈ g'.nodes ↔ node = ⟨site.id, site.function⟩ ∨ node ∈ g.nodes := by
  obtain ⟨-, -, -, -, heq⟩ := register_ok h
  rw [heq]
  dsimp only
  split
  · rename_i hnode
    -- The call site keeps its node, which is the one it would get.
    have hmem : ⟨site.id, site.function⟩ ∈ g.nodes := by
      obtain ⟨⟨s, F⟩, hn, hs⟩ := contains_iff.1 hnode
      obtain ⟨found, hfound, rfl⟩ := hg.callSite_of_node hn
      dsimp only at hs
      rw [hs, hsite] at hfound
      rw [← hs, Except.ok.inj hfound]
      exact hn
    constructor
    · exact Or.inr
    · rintro (rfl | hn)
      · exact hmem
      · exact hn
  · rw [List.mem_append, List.mem_singleton, or_comm]

/-- The record of a function after registration is the one from before with the call site added,
and that of any other function is the one from before. -/
theorem record?_register (h : g.register max site b = .ok g') (hr : g'.record? F = some r) :
    (F ≠ site.function ∧ g.record? F = some r) ∨ ∃ r₀ bit, F = site.function ∧
      (g.recordOrNew site.function).assign site.id max = .ok (r₀, bit) ∧
      r = r₀.addArgBit site.id b := by
  obtain ⟨r₀, bit, hassign, hrecord, -⟩ := register_ok h
  rw [hrecord] at hr
  split at hr
  · rename_i hF
    exact Or.inr ⟨r₀, bit, hF, hassign, (Option.some.inj hr).symm⟩
  · rename_i hF
    exact Or.inl ⟨hF, hr⟩

/-- Registration keeps the registry. -/
theorem register (hg : Registry p max g) (hsite : p.callSite site.id = .ok site)
    (h : g.register max site b = .ok g') : Registry p max g' where
  record_function hr := by
    rcases record?_register h hr with ⟨-, hr⟩ | ⟨r₀, bit, rfl, hassign, rfl⟩
    · exact hg.record_function hr
    · rw [FlagRecord.function_addArgBit, (FlagRecord.argBits_assign hassign).1]
      exact (hg.recordOrNew_spec _).1
  record_nodup hr := by
    rcases record?_register h hr with ⟨-, hr⟩ | ⟨r₀, bit, rfl, hassign, rfl⟩
    · exact hg.record_nodup hr
    · rw [FlagRecord.callSites_addArgBit]
      exact FlagRecord.nodup_assign hassign (hg.recordOrNew_spec _).2.1
  record_length_le hr := by
    rcases record?_register h hr with ⟨-, hr⟩ | ⟨r₀, bit, rfl, hassign, rfl⟩
    · exact hg.record_length_le hr
    · rw [FlagRecord.callSites_addArgBit]
      exact FlagRecord.length_assign_le hassign (hg.recordOrNew_spec _).2.2.1
  record_ne_nil hr := by
    rcases record?_register h hr with ⟨-, hr⟩ | ⟨r₀, bit, rfl, hassign, rfl⟩
    · exact hg.record_ne_nil hr
    · exact List.ne_nil_of_mem ((FlagRecord.mem_callSites_assign hassign).2 (Or.inl rfl))
  mem_nodes_iff := by
    intro s F
    rw [hg.mem_nodes_register hsite h, CallPathNode.mk.injEq]
    obtain ⟨r₀, bit, hassign, hrecord, -⟩ := register_ok h
    rw [hrecord]
    -- The new node and the new place in the record belong to the same function.
    by_cases hF : F = site.function
    · subst hF
      rw [if_pos rfl, ← (hg.recordOrNew_spec site.function).2.2.2]
      simp [FlagRecord.mem_callSites_assign hassign]
    · rw [if_neg hF, hg.mem_nodes_iff]
      simp [hF]
  callSite_of_node hn := by
    rcases (hg.mem_nodes_register hsite h).1 hn with hn | hn
    -- The builder looked the new call site up in the program before it registered it.
    · obtain ⟨rfl, rfl⟩ := CallPathNode.mk.inj hn
      exact ⟨site, hsite, rfl⟩
    · exact hg.callSite_of_node hn

end Registry

/-- The registry holds all along a walk. -/
theorem Walk.registry {done : List AllocationSite} {path : List InstId} {position : Option CallSite}
    (h : Walk p max done path position g) : Registry p max g := by
  induction h with
  | empty => exact Registry.empty
  | start _ hs hregister ih =>
    rw [recordAllocator_eq]
    exact (ih.register (Program.callSite_self hs) hregister).congr rfl rfl
  | level _ hs hlevel ih =>
    obtain ⟨g₁, hregister, hnodes, hrecords, -, -⟩ := addLevel_ok hlevel
    exact (ih.register (Program.callSite_self hs) hregister).congr hnodes hrecords
  | finish _ ih => exact ih.congr rfl rfl

/-- A graph that is built has a registry. -/
theorem registry_of_build {config : PassConfig} {c : Classification}
    (h : build p config c = .ok g) : Registry p config.maxFlagBits g := by
  obtain ⟨g₀, hwalk, rfl⟩ := walk_of_build h
  rw [exemptBy_eq]
  exact hwalk.registry.congr rfl rfl

end CallPathGraph

end HeapDomains
