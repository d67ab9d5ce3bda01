import HeapDomains.Proofs.CallPath.ArgBits
import Mathlib.Data.List.Chain

/-!
# Graphs of reported paths

A graph that is built is the graph of the reported paths: its call sites are those on some path, its
edges join neighbours on some path, and its entries are where the paths end. `PathsOf` says so of a
graph with the paths that are done and the part that is walked of the present one, and holds all
along a walk. `reaches_entry` is what the exemption of call sites rests on: going outwards along a
path, every call site reaches an entry.
-/

namespace HeapDomains

/-- Two neighbours on a list with an element put at the end were neighbours before, or are the last
element from before and the new one. -/
theorem pair_infix_concat {α : Type} {l : List α} {a b x : α} :
    [a, b] <:+: l ++ [x] ↔ [a, b] <:+: l ∨ (l.getLast? = some a ∧ b = x) := by
  rw [List.infix_concat_iff, List.suffix_concat_iff]
  constructor
  · rintro ((h | ⟨t, ht, hsuffix⟩) | h)
    · simp at h
    · -- The pair ends with the new element, so it starts with the last one from before.
      have hpair : [a] ++ [b] = t ++ [x] := ht
      obtain ⟨rfl, hbx⟩ := List.append_inj' hpair rfl
      obtain ⟨rest, rfl⟩ := hsuffix
      exact Or.inr ⟨List.getLast?_concat, (List.cons.inj hbx).1⟩
    · exact Or.inl h
  · rintro (h | ⟨hlast, rfl⟩)
    · exact Or.inr h
    · obtain ⟨rest, rfl⟩ := List.getLast?_eq_some_iff.1 hlast
      exact Or.inl (Or.inr ⟨[a], rfl, rest, rfl⟩)

/-- A single element has no neighbour. -/
theorem not_pair_infix_singleton {α : Type} {a b x : α} : ¬ [a, b] <:+: [x] := by
  intro h
  have := h.length_le
  simp at this

namespace CallPathGraph

/-- The nodes, edges and entries of a graph are those of the paths that are done and of the walked
part of the present one, which has no entry yet. -/
structure PathsOf (done : List (List InstId)) (walked : List InstId) (g : CallPathGraph) :
    Prop where
  /-- The nodes are the call sites on the paths. -/
  contains_iff : ∀ {s}, g.contains s = true ↔ (∃ path ∈ done, s ∈ path) ∨ s ∈ walked
  /-- The edges join neighbours on the paths. -/
  outward_iff : ∀ {i o}, g.Outward i o ↔ (∃ path ∈ done, [i, o] <:+: path) ∨ [i, o] <:+: walked
  /-- The entries are where the paths end. -/
  mem_entries_iff : ∀ {e}, e ∈ g.entries ↔ ∃ path ∈ done, path.getLast? = some e

variable {p : Program} {config : PassConfig} {facts : Facts} {c : Classification} {max : UInt32}
  {g g' : CallPathGraph} {s i o e : InstId}

/-- All along a walk the graph is that of the paths. -/
theorem Walk.pathsOf {done : List AllocationSite} {path : List InstId}
    {position : Option CallSite} (h : Walk p max done path position g) :
    PathsOf (done.map (·.path)) path g := by
  induction h with
  | empty =>
    constructor
    · simp [CallPathGraph.contains_iff, CallPathGraph.empty]
    · simp [Outward, CallPathGraph.empty]
    · simp [CallPathGraph.empty]
  | @start done g g' s alloc hwalk hs hregister ih =>
    have hid := Program.callSite_id hs
    have hs' : p.callSite alloc.id = .ok alloc := Program.callSite_self hs
    obtain ⟨-, -, -, -, heq⟩ := register_ok hregister
    rw [recordAllocator_eq]
    constructor
    · intro s'
      have hcontains := hwalk.registry.contains_register (s := s') hs' hregister
      rw [CallPathGraph.contains_iff] at hcontains ⊢
      rw [hcontains, ih.contains_iff, hid, List.mem_singleton]
      simp [or_comm]
    · intro i o
      have hedges : g'.Outward i o ↔ g.Outward i o := outward_register hregister
      rw [Outward] at hedges ⊢
      rw [hedges, ih.outward_iff]
      simp [not_pair_infix_singleton]
    · intro e
      dsimp only
      rw [heq]
      exact ih.mem_entries_iff
  | @level done path g g' s inner outer hwalk hs hlevel ih =>
    have hid := Program.callSite_id hs
    have hs' : p.callSite outer.id = .ok outer := Program.callSite_self hs
    obtain ⟨g₁, hregister, hnodes, -, hentries, hedges⟩ := addLevel_ok hlevel
    obtain ⟨-, -, -, -, heq⟩ := register_ok hregister
    constructor
    · intro s'
      have hcontains := hwalk.registry.contains_register (s := s') hs' hregister
      rw [CallPathGraph.contains_iff] at hcontains ⊢
      rw [hnodes, hcontains, ih.contains_iff, hid, List.mem_append, List.mem_singleton, or_comm,
        or_assoc]
    -- The builder stands at the last call site of the path, which the new edge starts from.
    · intro i o
      rw [hedges, outward_register hregister, ih.outward_iff, pair_infix_concat,
        hwalk.getLast?.1, Option.some.injEq, hid, or_assoc, eq_comm (a := i)]
    · intro e
      rw [hentries, heq]
      exact ih.mem_entries_iff
  | @finish done g site last hwalk ih =>
    -- The path that was walked joins those that are done, and where it ends is the new entry.
    have hlast := hwalk.getLast?.1
    constructor
    · intro s'
      change g.contains s' = true ↔ _
      rw [ih.contains_iff]
      simp [or_and_right, exists_or]
    · intro i o
      change g.Outward i o ↔ _
      rw [ih.outward_iff]
      simp [or_and_right, exists_or]
    · intro e
      rw [markEntry, OrderedSet.mem_insert, ih.mem_entries_iff]
      simp [or_and_right, exists_or, hlast, or_comm, eq_comm]

/-! ## Built graphs -/

/-- A graph that is built is that of the paths of the classification. -/
theorem pathsOf_of_build (h : build p config c = .ok g) :
    PathsOf (c.allocations.map (·.path)) [] g := by
  obtain ⟨g₀, hwalk, rfl⟩ := walk_of_build h
  have hpaths := hwalk.pathsOf
  rw [exemptBy_eq]
  exact ⟨hpaths.contains_iff, hpaths.outward_iff, hpaths.mem_entries_iff⟩

/-- A property of the paths of a classification is one of the reported paths. -/
theorem exists_path_iff (hc : Classification.ofFacts p facts = .ok c) {P : List InstId → Prop} :
    (∃ path ∈ c.allocations.map (·.path), P path) ↔
      ∃ report ∈ facts.reachableAllocations, P report.path := by
  constructor
  · rintro ⟨path, hpath, hP⟩
    obtain ⟨report, hreport, rfl⟩ :=
      (Classification.mem_paths_ofFacts hc).1 (List.mem_map.1 hpath)
    exact ⟨report, hreport, hP⟩
  · rintro ⟨report, hreport, hP⟩
    have hpath := (Classification.mem_paths_ofFacts hc).2 ⟨report, hreport, rfl⟩
    exact ⟨report.path, List.mem_map.2 hpath, hP⟩

/-- The nodes of a graph that is built are the call sites on reported paths. -/
theorem contains_iff_reported (hc : Classification.ofFacts p facts = .ok c)
    (h : build p config c = .ok g) :
    g.contains s = true ↔ ∃ report ∈ facts.reachableAllocations, s ∈ report.path := by
  rw [(pathsOf_of_build h).contains_iff, exists_path_iff hc]
  simp

/-- The edges of a graph that is built join neighbours on reported paths. -/
theorem outward_iff_reported (hc : Classification.ofFacts p facts = .ok c)
    (h : build p config c = .ok g) :
    g.Outward i o ↔ ∃ report ∈ facts.reachableAllocations, [i, o] <:+: report.path := by
  rw [(pathsOf_of_build h).outward_iff, exists_path_iff hc]
  simp

/-- The entries of a graph that is built are where reported paths end. -/
theorem mem_entries_iff_reported (hc : Classification.ofFacts p facts = .ok c)
    (h : build p config c = .ok g) :
    e ∈ g.entries ↔ ∃ report ∈ facts.reachableAllocations, report.path.getLast? = some e := by
  rw [(pathsOf_of_build h).mem_entries_iff, exists_path_iff hc]

/-- From every node an entry is reached going outwards. -/
theorem reaches_entry (h : build p config c = .ok g) (hs : g.contains s = true) :
    ∃ e ∈ g.entries, Relation.ReflTransGen g.Outward s e := by
  have hpaths := pathsOf_of_build h
  rcases hpaths.contains_iff.1 hs with ⟨path, hpath, hmem⟩ | hnil
  · obtain ⟨before, after, rfl⟩ := List.mem_iff_append.1 hmem
    -- What is left of the path from the call site on leads to where the path ends.
    have hchain : (s :: after).IsChain g.Outward := by
      rw [List.isChain_iff_forall_rel_of_append_cons_cons]
      intro a b l₁ l₂ hsplit
      refine hpaths.outward_iff.2 (Or.inl ⟨_, hpath, before ++ l₁, l₂, ?_⟩)
      rw [hsplit]
      simp
    refine ⟨(s :: after).getLast (List.cons_ne_nil _ _), ?_, ?_⟩
    · refine hpaths.mem_entries_iff.2 ⟨_, hpath, ?_⟩
      rw [List.getLast?_append_of_ne_nil _ (List.cons_ne_nil _ _), List.getLast?_eq_some_getLast]
    · exact List.relationReflTransGen_of_exists_isChain_cons after hchain rfl
  · simp at hnil

end CallPathGraph

end HeapDomains
