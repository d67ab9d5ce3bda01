import HeapDomains.CallPath.Build
import HeapDomains.Proofs.CallPath.Record
import HeapDomains.Proofs.Except

/-!
# Steps of the call-path builder

What each step that builds a call-path graph does to its nodes, edges and records. `register_ok` and
`addLevel_ok` open the steps; all that is proved about built graphs goes through them. A call site
is looked up in the record of its own function: `bit?` is its flag bit, `argBits` and `argMask` are
what a call made there raises.
-/

namespace HeapDomains

namespace CallPathGraph

/-- One call site is one level further out than another. -/
def Outward (g : CallPathGraph) (inner outer : InstId) : Prop := ⟨inner, outer⟩ ∈ g.edges

/-- The flag bit of a call site in the record of its function. -/
def bit? (g : CallPathGraph) (site : CallSite) : Option Nat :=
  (g.record? site.function).bind (·.bit? site.id)

/-- The bits that a call site raises. -/
def argBits (g : CallPathGraph) (site : CallSite) : OrderedSet Nat :=
  (g.recordOrNew site.function).argBitsOf site.id

/-- The bits that a call site raises as a flag value. -/
def argMask (g : CallPathGraph) (site : CallSite) : Word :=
  (g.recordOrNew site.function).argMask site.id

variable {g g' : CallPathGraph} {site inner outer : CallSite} {max : UInt32} {b : Nat}
  {s i o : InstId}

/-- A call site has a node when some node is its own. -/
theorem contains_iff : g.contains s = true ↔ ∃ n ∈ g.nodes, n.callSite = s := by
  rw [contains, node?, List.findIdx?_isSome, List.any_eq_true]
  simp only [beq_iff_eq]

/-- The number of a node is found when the call site has one. -/
theorem node_eq_ok (h : g.contains s = true) : ∃ index, g.node s = .ok index := by
  obtain ⟨index, hindex⟩ := Option.isSome_iff_exists.1 h
  exact ⟨index, by rw [node, hindex]⟩

/-- The number of a node is only found when the call site has one. -/
theorem contains_of_node {index : Nat} (h : g.node s = .ok index) : g.contains s = true := by
  unfold node at h
  split at h
  · rename_i found hfound
    rw [contains, hfound]
    rfl
  · simp at h

/-- The call sites one level further in are those from which an edge leads out. -/
theorem mem_innerNeighbors {sites : OrderedSet InstId} (h : g.innerNeighbors o = .ok sites) :
    i ∈ sites ↔ g.Outward i o := by
  rw [innerNeighbors, map_eq_ok] at h
  obtain ⟨index, -, rfl⟩ := h
  rw [OrderedSet.mem_ofList, Outward]
  constructor
  · intro hi
    obtain ⟨e, he, rfl⟩ := List.mem_map.1 hi
    rw [List.mem_filter, beq_iff_eq] at he
    obtain ⟨he, rfl⟩ := he
    exact he
  · intro he
    exact List.mem_map.2 ⟨⟨i, o⟩, List.mem_filter.2 ⟨he, by simp⟩, rfl⟩

/-- The call sites one level further out are those to which an edge leads. -/
theorem mem_outerNeighbors {sites : OrderedSet InstId} (h : g.outerNeighbors i = .ok sites) :
    o ∈ sites ↔ g.Outward i o := by
  rw [outerNeighbors, map_eq_ok] at h
  obtain ⟨index, -, rfl⟩ := h
  rw [OrderedSet.mem_ofList, Outward]
  simp only [List.mem_map, List.mem_filter, beq_iff_eq]
  constructor
  · rintro ⟨⟨i', o'⟩, ⟨he, rfl⟩, rfl⟩
    exact he
  · intro he
    exact ⟨⟨i, o⟩, ⟨he, rfl⟩, rfl⟩

/-- The call sites with a node are listed as call sites of the graph. -/
theorem mem_callSites : s ∈ g.callSites ↔ g.contains s = true := by
  rw [callSites, OrderedSet.mem_ofList, List.mem_map, contains_iff]

/-- A call site with a node has a role, which is its place among the entries and the exempt call
sites. -/
theorem role_eq_ok (hs : g.contains s = true) : g.role s =
    .ok (if s ∈ g.entries then .entry else if s ∈ g.exempt then .exempt else .guarded) := by
  obtain ⟨index, hindex⟩ := node_eq_ok hs
  rw [role, hindex]
  rfl

/-- A call site without a node is unknown when its role is asked for. -/
theorem role_eq_error (hs : g.contains s ≠ true) : g.role s = .error (.unknownCallSite s) := by
  have hnone : g.node? s = none := by
    rw [contains] at hs
    simpa using hs
  rw [role, node, hnone]
  rfl

/-- Only a call site with a node has a role. -/
theorem contains_of_role {role : CallSiteRole} (h : g.role s = .ok role) :
    g.contains s = true := by
  rw [CallPathGraph.role, map_eq_ok] at h
  obtain ⟨index, hindex, -⟩ := h
  exact contains_of_node hindex

/-- A call site with a node that is an entry has the role of one, exempt or not. -/
theorem role_eq_ok_entry_iff : g.role s = .ok .entry ↔ g.contains s = true ∧ s ∈ g.entries := by
  constructor
  · intro h
    have hs := contains_of_role h
    refine ⟨hs, ?_⟩
    rw [role_eq_ok hs] at h
    by_contra hentry
    rw [if_neg hentry] at h
    split at h
    · exact absurd (Except.ok.inj h) (by decide)
    · exact absurd (Except.ok.inj h) (by decide)
  · rintro ⟨hs, hentry⟩
    rw [role_eq_ok hs, if_pos hentry]

/-- The call sites with a node are those with a role, of which each has one. -/
theorem contains_iff_existsUnique_role :
    g.contains s = true ↔ ∃! role, g.role s = .ok role := by
  constructor
  · intro hs
    exact ⟨_, role_eq_ok hs, fun role hrole => Except.ok.inj (hrole.symm.trans (role_eq_ok hs))⟩
  · rintro ⟨role, hrole, -⟩
    exact contains_of_role hrole

/-! ## Registration -/

/-- Giving a call site a node changes nothing but the nodes. -/
theorem ensureNode_eq {function : FunctionId} :
    (g.ensureNode s function).1 = { g with
      nodes := if g.contains s then g.nodes else g.nodes ++ [⟨s, function⟩] } := by
  unfold ensureNode contains
  split
  · rename_i hfound
    rw [hfound]
    rfl
  · rename_i hnone
    rw [hnone]
    rfl

/-- Registering a call site gives it a node unless it has one, and replaces the record of its
function by one in which the call site has a bit and raises one more. All else stays as it is. -/
theorem register_ok (h : g.register max site b = .ok g') :
    ∃ r bit, (g.recordOrNew site.function).assign site.id max = .ok (r, bit) ∧
      (∀ F, g'.record? F =
        if F = site.function then some (r.addArgBit site.id b) else g.record? F) ∧
      g' = { g with
        nodes := if g.contains site.id then g.nodes else g.nodes ++ [⟨site.id, site.function⟩]
        records := g'.records } := by
  unfold register assign at h
  -- Making the node changes no record, so the bit is the one the record gives out without it.
  rw [ensureNode_eq] at h
  split at h
  · simp at h
  · rename_i hassign
    split at hassign
    · rename_i r bit hr
      obtain ⟨rfl, -⟩ := Prod.mk.inj hassign
      obtain rfl := Except.ok.inj h
      refine ⟨r, bit, hr, fun F => ?_, rfl⟩
      simp only [addArgBit, setRecord, record?, recordOrNew, OrderedMap.get?_insert, rank_eq_iff,
        if_true, Option.getD_some]
      by_cases hF : F = site.function
      · rw [if_pos hF, if_pos hF]
      · rw [if_neg hF, if_neg hF, if_neg hF]
    · simp at hassign

/-- Registration puts the call site at the end of the record of its function, unless it is in there
already. -/
theorem callSites_register (h : g.register max site b = .ok g') (F : FunctionId) :
    (g'.recordOrNew F).callSites =
      if F = site.function ∧ site.id ∉ (g.recordOrNew F).callSites then
        (g.recordOrNew F).callSites ++ [site.id] else (g.recordOrNew F).callSites := by
  obtain ⟨r, bit, hassign, hrecord, -⟩ := register_ok h
  have hcallSites := FlagRecord.callSites_assign_eq hassign
  rw [recordOrNew, hrecord]
  by_cases hF : F = site.function
  · subst hF
    rw [if_pos rfl, Option.getD_some, FlagRecord.callSites_addArgBit, hcallSites]
    simp only [true_and]
  · rw [if_neg hF, if_neg fun hnew => hF hnew.1]
    rfl

/-- Registration fails when the call site is new and the record of its function is full. -/
theorem errorOf?_register : errorOf? (g.register max site b) =
    errorOf? ((g.recordOrNew site.function).assign site.id max) := by
  have hrecord : (g.ensureNode site.id site.function).1.recordOrNew site.function =
      g.recordOrNew site.function := by
    rw [ensureNode_eq]
    rfl
  unfold register assign
  rw [hrecord]
  cases (g.recordOrNew site.function).assign site.id max with
  | error violation => rfl
  | ok result => rfl

/-! ## Levels -/

/-- An edge is refused at the first of its call sites without a node, and is not added twice. -/
theorem link_eq : g.link i o =
    if g.contains i then
      if g.contains o then
        .ok { g with edges := if ⟨i, o⟩ ∈ g.edges then g.edges else g.edges ++ [⟨i, o⟩] }
      else .error (.unknownCallSite o)
    else .error (.unknownCallSite i) := by
  rw [link, node, node, contains, contains]
  cases g.node? i with
  | none => rfl
  | some m =>
    cases g.node? o with
    | none => rfl
    | some n =>
      by_cases hmem : ⟨i, o⟩ ∈ g.edges
      · simp [bind, Except.bind, hmem, pure, Except.pure]
      · simp [bind, Except.bind, hmem, pure, Except.pure]

/-- An edge is added between call sites with a node, at the end unless it is there. -/
theorem link_eq_ok_iff : g.link i o = .ok g' ↔ g.contains i = true ∧ g.contains o = true ∧
    g' = { g with edges := if ⟨i, o⟩ ∈ g.edges then g.edges else g.edges ++ [⟨i, o⟩] } := by
  rw [link_eq]
  by_cases hi : g.contains i = true
  · by_cases ho : g.contains o = true
    · simp only [hi, ho, if_true, Except.ok.injEq, true_and, eq_comm]
    · simp [hi, ho]
  · simp [hi]

/-- An edge that is added is there afterwards, as are the edges from before. -/
theorem link_ok (h : g.link i o = .ok g') :
    (∀ i' o', g'.Outward i' o' ↔ g.Outward i' o' ∨ (i' = i ∧ o' = o)) ∧
      g' = { g with edges := g'.edges } := by
  obtain ⟨-, -, rfl⟩ := link_eq_ok_iff.1 h
  refine ⟨fun i' o' => ?_, rfl⟩
  unfold Outward
  dsimp only
  split
  · rename_i hmem
    refine ⟨Or.inl, ?_⟩
    rintro (he | ⟨rfl, rfl⟩)
    · exact he
    · exact hmem
  · simp only [List.mem_append, List.mem_singleton, CallPathEdge.mk.injEq]

/-- An edge is only added between call sites with a node. -/
theorem contains_of_link (h : g.link i o = .ok g') :
    g.contains i = true ∧ g.contains o = true :=
  ⟨(link_eq_ok_iff.1 h).1, (link_eq_ok_iff.1 h).2.1⟩

/-- An edge can be added between call sites with a node. -/
theorem exists_link (hi : g.contains i = true) (ho : g.contains o = true) :
    ∃ g', g.link i o = .ok g' :=
  ⟨_, link_eq_ok_iff.2 ⟨hi, ho, rfl⟩⟩

/-- Noting what a call site calls changes neither nodes, edges, records nor entries. -/
theorem recordCall_eq : g.recordCall inner outer = { g with
    callees := (g.recordCall inner outer).callees
    indirectTargets := (g.recordCall inner outer).indirectTargets } := by
  unfold recordCall
  split
  · rfl
  · rfl

/-- Noting what an allocation calls changes neither nodes, edges, records nor entries. -/
theorem recordAllocator_eq :
    g.recordAllocator site = { g with callees := (g.recordAllocator site).callees } := by
  unfold recordAllocator
  split
  · rfl
  · rfl

/-- Adding a level registers the outer call site, which raises the bit of the inner one, then adds
the edge between the two and notes what the outer one calls. -/
theorem addLevel_steps (h : g.addLevel max inner outer = .ok g') :
    ∃ g₁ g₂, g.register max outer (g.bitOf inner) = .ok g₁ ∧ g₁.link inner.id outer.id = .ok g₂ ∧
      g' = (g₂.markHeapMove outer.id).recordCall inner outer := by
  rw [addLevel, bind_eq_ok] at h
  obtain ⟨g₁, hg₁, h⟩ := h
  rw [bind_eq_ok] at h
  obtain ⟨g₂, hg₂, h⟩ := h
  exact ⟨g₁, g₂, hg₁, hg₂, (Except.ok.inj h).symm⟩

/-- Adding a level registers the outer call site, which raises the bit of the inner one, and adds
the edge between the two. -/
theorem addLevel_ok (h : g.addLevel max inner outer = .ok g') :
    ∃ g₁, g.register max outer (g.bitOf inner) = .ok g₁ ∧ g'.nodes = g₁.nodes ∧
      g'.records = g₁.records ∧ g'.entries = g₁.entries ∧
      ∀ i o, g'.Outward i o ↔ g₁.Outward i o ∨ (i = inner.id ∧ o = outer.id) := by
  obtain ⟨g₁, g₂, hg₁, hg₂, rfl⟩ := addLevel_steps h
  obtain ⟨hedges, heq⟩ := link_ok hg₂
  rw [recordCall_eq]
  refine ⟨g₁, hg₁, ?_, ?_, ?_, hedges⟩
  · rw [heq]; rfl
  · rw [heq]; rfl
  · rw [heq]; rfl

end CallPathGraph

end HeapDomains
