import HeapDomains.Proofs.CallPath.Steps
import HeapDomains.Proofs.Keyed
import Mathlib.Data.List.Induction

/-!
# The arena of a call-path graph

A call-path graph is usually kept as an arena: the nodes by number, an index from call sites to
these numbers, and edges between numbers. `CallPathArena` is such an arena, and
`CallPathArena.InStep` says that it holds a graph. Every step keeps an arena and the graph in step
(`InStep.apply`), so that both give the same numbers, find the same neighbours and refuse the same
edges.

What is in a graph follows from the steps that made it. A call site has a node from the first step
on that asks for one, with the function of that step, and an edge is there from the first step on
that adds it between call sites with a node; both are steps that were taken after steps of some kind
(`TakenAfter`). `Traced` is the invariant that carries this over the steps, and `KeepsArena` says
what it means for the numbers of nodes, the neighbours and the roles of call sites.
-/

namespace HeapDomains

/-! ## Arenas -/

/-- A graph of call paths that is kept as an arena. -/
structure CallPathArena where
  /-- The nodes by number. -/
  nodes : List CallPathNode
  /-- The numbers of the nodes of call sites. -/
  index : OrderedMap InstId Nat
  /-- The edges outwards, between the numbers of nodes. -/
  edges : List (Nat × Nat)

namespace CallPathArena

/-- The arena without nodes. -/
def empty : CallPathArena := ⟨[], ∅, []⟩

/-- The number of the node of a call site, which has to exist. -/
def node (a : CallPathArena) (site : InstId) : Except InvariantViolation Nat :=
  match a.index.get? site with
  | some i => .ok i
  | none => .error (.unknownCallSite site)

/-- The arena with a node for a call site, and the number of that node. -/
def ensureNode (a : CallPathArena) (site : InstId) (function : FunctionId) :
    CallPathArena × Nat :=
  match a.index.get? site with
  | some i => (a, i)
  | none =>
    ({ a with
      nodes := a.nodes ++ [⟨site, function⟩]
      index := a.index.insert site a.nodes.length }, a.nodes.length)

/-- The arena with an edge outwards between call sites that need a node. -/
def link (a : CallPathArena) (inner outer : InstId) : Except InvariantViolation CallPathArena := do
  let i ← a.node inner
  let o ← a.node outer
  return if a.edges.contains (i, o) then a else { a with edges := a.edges ++ [(i, o)] }

/-- The call sites at the far ends of the edges that have a call site at their near end. -/
def neighbors (near far : Nat × Nat → Nat) (a : CallPathArena) (site : InstId) :
    Except InvariantViolation (OrderedSet InstId) :=
  (a.node site).map fun i => OrderedSet.ofList <|
    (a.edges.filter (near · == i)).filterMap fun e => a.nodes[far e]?.map (·.callSite)

/-- The call sites one level further out. -/
def outerNeighbors (a : CallPathArena) (site : InstId) :
    Except InvariantViolation (OrderedSet InstId) := a.neighbors Prod.fst Prod.snd site

/-- The call sites one level nearer to an allocation. -/
def innerNeighbors (a : CallPathArena) (site : InstId) :
    Except InvariantViolation (OrderedSet InstId) := a.neighbors Prod.snd Prod.fst site

/-- The arena after a step. All but new nodes and new edges is kept elsewhere. -/
def apply (a : CallPathArena) : GraphStep → CallPathArena
  | .ensureNode site function => (a.ensureNode site function).1
  | .link inner outer =>
    match a.link inner outer with
    | .ok a' => a'
    | .error _ => a
  | _ => a

/-- The arena that steps make of the empty one. -/
def ofSteps (steps : List GraphStep) : CallPathArena := steps.foldl apply empty

end CallPathArena

namespace CallPathGraph

variable {g : CallPathGraph} {steps : List GraphStep} {step : GraphStep} {s t i o : InstId}
  {F : FunctionId} {n : Nat}

/-! ## Single steps -/

/-- The number of a node is that of a node of the call site. -/
theorem getElem?_of_node? (h : g.node? s = some n) : ∃ F, g.nodes[n]? = some ⟨s, F⟩ := by
  obtain ⟨hlt, hsite, -⟩ := List.findIdx?_eq_some_iff_getElem.1 h
  obtain rfl := eq_of_beq hsite
  exact ⟨g.nodes[n].function, List.getElem?_eq_getElem hlt⟩

/-- No two call sites have the same node. -/
theorem node?_inj (hs : g.node? s = some n) (ht : g.node? t = some n) : s = t := by
  obtain ⟨F, hF⟩ := getElem?_of_node? hs
  obtain ⟨F', hF'⟩ := getElem?_of_node? ht
  rw [hF] at hF'
  exact (CallPathNode.mk.inj (Option.some.inj hF')).1

/-- A node that is put at the end gets the next number, unless the call site has one. -/
theorem node?_append_singleton : node? { g with nodes := g.nodes ++ [⟨s, F⟩] } t =
    (g.node? t).or (if t = s then some g.nodes.length else none) := by
  rw [node?, List.findIdx?_append]
  congr 1
  by_cases hts : t = s
  · simp [hts]
  · simp [hts, List.findIdx?_cons, Ne.symm hts]

/-- The number that is given out is that of the node. -/
theorem node?_ensureNode : (g.ensureNode s F).1.node? s = some (g.ensureNode s F).2 := by
  rw [ensureNode]
  cases hs : g.node? s with
  | some n => exact hs
  | none => rw [node?_append_singleton, hs, if_pos rfl, Option.none_or]

/-- What a step does to the nodes, the edges and the entries: it adds a node for a call site without
one, a new edge between call sites with a node, or an entry. -/
theorem apply_eq : g.apply step = { g.apply step with
    nodes := match step with
      | .ensureNode s F => if g.contains s then g.nodes else g.nodes ++ [⟨s, F⟩]
      | _ => g.nodes
    edges := match step with
      | .link i o =>
        if g.contains i = true ∧ g.contains o = true ∧ ⟨i, o⟩ ∉ g.edges then g.edges ++ [⟨i, o⟩]
        else g.edges
      | _ => g.edges
    entries := match step with
      | .markEntry s => g.entries.insert s
      | _ => g.entries } := by
  cases step with
  | ensureNode s F => rw [apply, ensureNode_eq]
  | link i o =>
    rw [apply, link_eq]
    by_cases hi : g.contains i = true
    · by_cases ho : g.contains o = true
      · by_cases hmem : ⟨i, o⟩ ∈ g.edges
        · simp [hi, ho, hmem]
        · simp [hi, ho, hmem]
      · simp [hi, ho]
    · simp [hi]
  | assign F s max =>
    rw [apply, assign]
    split
    · rfl
    · rfl
  | addArgBit F s b => rfl
  | markEntry s => rfl
  | setExempt sites => rfl
  | recordCallee s callee => rfl
  | recordIndirectTarget s target => rfl
  | markHeapMove s => rfl

/-- A step adds a node when it asks for one for a call site without a node. -/
theorem nodes_apply : (g.apply step).nodes = match step with
    | .ensureNode s F => if g.contains s then g.nodes else g.nodes ++ [⟨s, F⟩]
    | _ => g.nodes :=
  congrArg nodes apply_eq

/-- A step adds an edge when it asks for a new one between call sites with a node. -/
theorem edges_apply : (g.apply step).edges = match step with
    | .link i o =>
      if g.contains i = true ∧ g.contains o = true ∧ ⟨i, o⟩ ∉ g.edges then g.edges ++ [⟨i, o⟩]
      else g.edges
    | _ => g.edges :=
  congrArg edges apply_eq

/-- After a step a node is an old one or the new one. -/
theorem mem_nodes_apply : ⟨s, F⟩ ∈ (g.apply step).nodes ↔
    ⟨s, F⟩ ∈ g.nodes ∨ (step = .ensureNode s F ∧ g.contains s ≠ true) := by
  rw [nodes_apply]
  cases step with
  | ensureNode t F' =>
    dsimp only
    split
    · rename_i ht
      refine (or_iff_left ?_).symm
      rintro ⟨hstep, hs⟩
      obtain ⟨rfl, -⟩ := GraphStep.ensureNode.inj hstep
      exact hs ht
    · rename_i ht
      simp only [List.mem_append, List.mem_singleton, CallPathNode.mk.injEq,
        GraphStep.ensureNode.injEq]
      refine or_congr_right ⟨?_, ?_⟩
      · rintro ⟨rfl, rfl⟩
        exact ⟨⟨rfl, rfl⟩, ht⟩
      · rintro ⟨⟨rfl, rfl⟩, -⟩
        exact ⟨rfl, rfl⟩
  | _ => simp

/-- After a step an edge is an old one or the new one. -/
theorem outward_apply : (g.apply step).Outward i o ↔
    g.Outward i o ∨ (step = .link i o ∧ g.contains i = true ∧ g.contains o = true) := by
  rw [Outward, edges_apply]
  cases step with
  | link i' o' =>
    dsimp only
    split
    · rename_i h
      obtain ⟨hi, ho, -⟩ := h
      simp only [List.mem_append, List.mem_singleton, CallPathEdge.mk.injEq, GraphStep.link.injEq]
      refine or_congr_right ⟨?_, ?_⟩
      · rintro ⟨rfl, rfl⟩
        exact ⟨⟨rfl, rfl⟩, hi, ho⟩
      · rintro ⟨⟨rfl, rfl⟩, -⟩
        exact ⟨rfl, rfl⟩
    · rename_i h
      refine (or_iff_left_of_imp ?_).symm
      rintro ⟨hstep, hi, ho⟩
      obtain ⟨rfl, rfl⟩ := GraphStep.link.inj hstep
      by_contra hmem
      exact h ⟨hi, ho, hmem⟩
  | _ => simp [Outward]

/-- A step gives no call site a second node. -/
theorem nodup_callSites_apply (h : (g.nodes.map (·.callSite)).Nodup) :
    ((g.apply step).nodes.map (·.callSite)).Nodup := by
  rw [nodes_apply]
  split
  · split
    · exact h
    · rename_i s F hs
      rw [List.map_append, List.map_singleton, ← List.concat_eq_append]
      refine h.concat fun hmem => hs ?_
      obtain ⟨n, hn, hsite⟩ := List.mem_map.1 hmem
      exact contains_iff.2 ⟨n, hn, hsite⟩
  · exact h

/-- A step adds no edge twice. -/
theorem nodup_edges_apply (h : g.edges.Nodup) : (g.apply step).edges.Nodup := by
  rw [edges_apply]
  split
  · split
    · rename_i hnew
      rw [← List.concat_eq_append]
      exact h.concat hnew.2.2
    · exact h
  · exact h

/-- A call site is an entry after a step that makes it one, and when it was one before. -/
theorem mem_entries_apply :
    s ∈ (g.apply step).entries ↔ s ∈ g.entries ∨ step = .markEntry s := by
  rw [congrArg entries apply_eq]
  cases step with
  | markEntry t => simp [or_comm, eq_comm]
  | _ => simp

/-- Steps are taken one after the other. -/
theorem ofSteps_concat : ofSteps (steps ++ [step]) = (ofSteps steps).apply step := by
  rw [ofSteps, List.foldl_append, List.foldl_cons, List.foldl_nil, ofSteps]

/-! ## What steps have made -/

/-- A step was taken after steps that have a property. -/
def TakenAfter (P : List GraphStep → Prop) (steps : List GraphStep) (step : GraphStep) : Prop :=
  ∃ before after, steps = before ++ step :: after ∧ P before

/-- A step was taken after steps of some kind when it was one so far, or when it is the last one. -/
theorem takenAfter_concat {P : List GraphStep → Prop} {last : GraphStep} :
    TakenAfter P (steps ++ [last]) step ↔ TakenAfter P steps step ∨ (step = last ∧ P steps) := by
  constructor
  · rintro ⟨before, after, hsplit, hbefore⟩
    -- Either nothing stands after the step, or the last step does.
    rcases List.eq_nil_or_concat after with rfl | ⟨after, last', rfl⟩
    · obtain ⟨rfl, hlast⟩ := List.append_inj' hsplit rfl
      exact .inr ⟨(List.singleton_inj.1 hlast).symm, hbefore⟩
    · rw [List.concat_eq_append, ← List.cons_append, ← List.append_assoc] at hsplit
      obtain ⟨rfl, -⟩ := List.append_inj' hsplit rfl
      exact .inl ⟨before, after, rfl, hbefore⟩
  · rintro (⟨before, after, rfl, hbefore⟩ | ⟨rfl, hP⟩)
    · exact ⟨before, after ++ [last], by rw [List.append_assoc, List.cons_append], hbefore⟩
    · exact ⟨steps, [], rfl, hP⟩

/-- No step was taken when there were none. -/
theorem not_takenAfter_nil {P : List GraphStep → Prop} : ¬ TakenAfter P [] step := by
  rintro ⟨before, after, hsplit, -⟩
  simp at hsplit

/-- The first step that asked for a node for a call site did so with a function. -/
def FirstMade (steps : List GraphStep) (site : InstId) (function : FunctionId) : Prop :=
  TakenAfter (fun before => ∀ F, .ensureNode site F ∉ before) steps (.ensureNode site function)

/-- An edge was added, that is some step that asked for it did not fail. -/
def Linked (steps : List GraphStep) (inner outer : InstId) : Prop :=
  TakenAfter (fun before => ∃ g, (ofSteps before).link inner outer = .ok g) steps
    (.link inner outer)

/-- When steps asked for a node for a call site, one of them was the first. -/
theorem exists_firstMade_iff : (∃ F, FirstMade steps s F) ↔ ∃ F, .ensureNode s F ∈ steps := by
  constructor
  · rintro ⟨F, before, after, rfl, -⟩
    exact ⟨F, by simp⟩
  · intro h
    induction steps using List.reverseRecOn with
    | nil => simp at h
    | append_singleton steps last ih =>
      -- The last step is the first one to ask unless a step before it did.
      by_cases hbefore : ∃ F, .ensureNode s F ∈ steps
      · obtain ⟨F, hF⟩ := ih hbefore
        exact ⟨F, takenAfter_concat.2 (.inl hF)⟩
      · obtain ⟨F, hF⟩ := h
        rcases List.mem_append.1 hF with hF | hF
        · exact absurd ⟨F, hF⟩ hbefore
        · exact ⟨F, takenAfter_concat.2 (.inr ⟨List.mem_singleton.1 hF, not_exists.1 hbefore⟩)⟩

/-- A step adds an edge that it asks for between call sites with a node. -/
theorem linked_concat : Linked (steps ++ [step]) i o ↔
    Linked steps i o ∨ (step = .link i o ∧ (ofSteps steps).contains i = true ∧
      (ofSteps steps).contains o = true) := by
  have hlink : (∃ g, (ofSteps steps).link i o = .ok g) ↔
      (ofSteps steps).contains i = true ∧ (ofSteps steps).contains o = true :=
    ⟨fun ⟨_, hg⟩ => contains_of_link hg, fun ⟨hi, ho⟩ => exists_link hi ho⟩
  rw [Linked, takenAfter_concat, Linked, eq_comm (b := step), hlink]

/-- What is in the graph that steps have made. -/
structure Traced (steps : List GraphStep) : Prop where
  /-- No call site has two nodes. -/
  callSites_nodup : ((ofSteps steps).nodes.map (·.callSite)).Nodup
  /-- A node is of the function that it was first asked for. -/
  mem_nodes_iff : ∀ {s F}, ⟨s, F⟩ ∈ (ofSteps steps).nodes ↔ FirstMade steps s F
  /-- No edge is there twice. -/
  edges_nodup : (ofSteps steps).edges.Nodup
  /-- An edge is there when it was added. -/
  outward_iff : ∀ {i o}, (ofSteps steps).Outward i o ↔ Linked steps i o
  /-- The entries are the call sites that were made entries. -/
  mem_entries_iff : ∀ {s}, s ∈ (ofSteps steps).entries ↔ .markEntry s ∈ steps

namespace Traced

/-- Without steps there is nothing in the graph. -/
theorem nil : Traced [] where
  callSites_nodup := List.nodup_nil
  mem_nodes_iff := iff_of_false List.not_mem_nil not_takenAfter_nil
  edges_nodup := List.nodup_nil
  outward_iff := iff_of_false List.not_mem_nil not_takenAfter_nil
  mem_entries_iff := iff_of_false (OrderedSet.not_mem_empty _) List.not_mem_nil

/-- The call sites with a node are those that some step asked to have one. -/
theorem contains_iff (h : Traced steps) :
    (ofSteps steps).contains s = true ↔ ∃ F, .ensureNode s F ∈ steps := by
  rw [CallPathGraph.contains_iff, ← exists_firstMade_iff]
  constructor
  · rintro ⟨⟨t, F⟩, hn, rfl⟩
    exact ⟨F, h.mem_nodes_iff.1 hn⟩
  · rintro ⟨F, hF⟩
    exact ⟨⟨s, F⟩, h.mem_nodes_iff.2 hF, rfl⟩

/-- A step is the first one that asks for a node when the call site has none yet. -/
theorem firstMade_concat (h : Traced steps) : FirstMade (steps ++ [step]) s F ↔
    FirstMade steps s F ∨ (step = .ensureNode s F ∧ (ofSteps steps).contains s ≠ true) := by
  rw [FirstMade, takenAfter_concat, FirstMade, eq_comm (b := step), Ne, h.contains_iff, not_exists]

/-- A step keeps the graph one that is traced. -/
theorem concat (h : Traced steps) (step : GraphStep) : Traced (steps ++ [step]) where
  callSites_nodup := by
    rw [ofSteps_concat]
    exact nodup_callSites_apply h.callSites_nodup
  mem_nodes_iff := by
    intro s F
    rw [ofSteps_concat, mem_nodes_apply, h.firstMade_concat, h.mem_nodes_iff]
  edges_nodup := by
    rw [ofSteps_concat]
    exact nodup_edges_apply h.edges_nodup
  outward_iff := by
    intro i o
    rw [ofSteps_concat, outward_apply, linked_concat, h.outward_iff]
  mem_entries_iff := by
    intro s
    rw [ofSteps_concat, mem_entries_apply, h.mem_entries_iff, List.mem_append, List.mem_singleton,
      eq_comm (b := step)]

end Traced

/-- A graph that steps have made is traced by them. -/
theorem traced_ofSteps : Traced steps := by
  induction steps using List.reverseRecOn with
  | nil => exact Traced.nil
  | append_singleton steps step ih => exact ih.concat step

/-! ## Numbers -/

/-- When no call site has two nodes, the number of a node is that of its call site. -/
theorem node?_of_getElem? (h : (g.nodes.map (·.callSite)).Nodup) (hn : g.nodes[n]? = some ⟨s, F⟩) :
    g.node? s = some n := by
  obtain ⟨hlt, hget⟩ := List.getElem?_eq_some_iff.1 hn
  refine List.findIdx?_eq_some_iff_getElem.2 ⟨hlt, by simp [hget], fun j hj => ?_⟩
  have hne := List.pairwise_iff_getElem.1 h j n (by simp; omega) (by simpa) hj
  simpa [hget] using hne

/-- When no call site has two nodes, the call sites with a node are numbered one to one. -/
theorem bijOn_node? (h : (g.nodes.map (·.callSite)).Nodup) :
    Set.BijOn g.node? {s | g.contains s = true} (some '' Set.Iio g.nodes.length) := by
  refine ⟨?mapsTo, ?injOn, ?surjOn⟩
  case mapsTo =>
    intro s hs
    obtain ⟨n, hn⟩ := Option.isSome_iff_exists.1 hs
    obtain ⟨F, hF⟩ := getElem?_of_node? hn
    exact ⟨n, (List.getElem?_eq_some_iff.1 hF).1, hn.symm⟩
  case injOn =>
    intro s hs t ht heq
    obtain ⟨n, hn⟩ := Option.isSome_iff_exists.1 hs
    exact node?_inj hn (heq ▸ hn)
  case surjOn =>
    rintro _ ⟨n, hn, rfl⟩
    have hnode := node?_of_getElem? h (List.getElem?_eq_getElem hn)
    exact ⟨g.nodes[n].callSite, Option.isSome_of_eq_some hnode, hnode⟩

/-- More steps put nodes at the end of those that are there. -/
theorem nodes_prefix {more : List GraphStep} :
    (ofSteps steps).nodes <+: (ofSteps (steps ++ more)).nodes := by
  induction more using List.reverseRecOn with
  | nil => rw [List.append_nil]
  | append_singleton more step ih =>
    rw [← List.append_assoc, ofSteps_concat, nodes_apply]
    split
    · split
      · exact ih
      · exact ih.trans (List.prefix_append _ _)
    · exact ih

/-- Nodes that are put at the end leave the numbers of those from before. -/
theorem node?_of_prefix {g' : CallPathGraph} (h : g.nodes <+: g'.nodes) (hs : g.node? s = some n) :
    g'.node? s = some n := by
  obtain ⟨new, hnew⟩ := h
  rw [node?] at hs
  rw [node?, ← hnew, List.findIdx?_append, hs]
  rfl

/-! ## Neighbours and edges -/

/-- When edges join call sites with a node, an edge leads to a neighbour that is found. -/
theorem exists_mem_outerNeighbors_iff (h : EdgesJoinNodes g) :
    (∃ sites, g.outerNeighbors i = .ok sites ∧ o ∈ sites) ↔ g.Outward i o := by
  constructor
  · rintro ⟨sites, hsites, ho⟩
    exact (mem_outerNeighbors hsites).1 ho
  · intro hedge
    obtain ⟨n, hn⟩ := node_eq_ok (h i o hedge).1
    obtain ⟨sites, hsites⟩ : ∃ sites, g.outerNeighbors i = .ok sites :=
      ⟨_, map_eq_ok.2 ⟨n, hn, rfl⟩⟩
    exact ⟨sites, hsites, (mem_outerNeighbors hsites).2 hedge⟩

/-- When edges join call sites with a node, an edge leads from a neighbour that is found. -/
theorem exists_mem_innerNeighbors_iff (h : EdgesJoinNodes g) :
    (∃ sites, g.innerNeighbors o = .ok sites ∧ i ∈ sites) ↔ g.Outward i o := by
  constructor
  · rintro ⟨sites, hsites, hi⟩
    exact (mem_innerNeighbors hsites).1 hi
  · intro hedge
    obtain ⟨n, hn⟩ := node_eq_ok (h i o hedge).2
    obtain ⟨sites, hsites⟩ : ∃ sites, g.innerNeighbors o = .ok sites :=
      ⟨_, map_eq_ok.2 ⟨n, hn, rfl⟩⟩
    exact ⟨sites, hsites, (mem_innerNeighbors hsites).2 hedge⟩

/-- An edge is refused when one of its call sites has no node, of which the inner one is named
first. -/
theorem errorOf?_link : errorOf? (g.link i o) =
    if g.contains i then if g.contains o then none else some (.unknownCallSite o)
    else some (.unknownCallSite i) := by
  rw [link_eq]
  split
  · split
    · rfl
    · rfl
  · rfl

/-- An edge that is refused changes nothing. -/
theorem apply_link_of_errorOf? (h : errorOf? (g.link i o) ≠ none) : g.apply (.link i o) = g := by
  rw [apply]
  split
  · rename_i g' hlink
    rw [hlink] at h
    exact absurd rfl h
  · rfl

/-- Distinct edges are as many as the list of them is long. -/
theorem encard_edges (h : g.edges.Nodup) :
    {e : CallPathEdge | g.Outward e.inner e.outer}.encard = g.edges.length :=
  encard_setOf_mem h

end CallPathGraph

/-! ## Arenas in step with graphs -/

namespace CallPathArena

open CallPathGraph (node?_inj getElem?_of_node? node?_append_singleton)

variable {a : CallPathArena} {g : CallPathGraph} {step : GraphStep} {s i o : InstId}
  {F : FunctionId} {m n : Nat} {near far : Nat × Nat → Nat} {near' far' : CallPathEdge → InstId}

/-- An arena holds the nodes, the numbers and the edges of a graph. -/
structure InStep (a : CallPathArena) (g : CallPathGraph) : Prop where
  /-- The nodes are the same. -/
  nodes_eq : a.nodes = g.nodes
  /-- Call sites are indexed by the numbers of their nodes. -/
  get?_index : ∀ s, a.index.get? s = g.node? s
  /-- Edges go between the numbers of their call sites. -/
  edges : List.Forall₂ (fun p e => g.node? e.inner = some p.1 ∧ g.node? e.outer = some p.2)
    a.edges g.edges

namespace InStep

/-- The arena and the graph without nodes are in step. -/
theorem empty : InStep CallPathArena.empty CallPathGraph.empty where
  nodes_eq := rfl
  get?_index _ := rfl
  edges := .nil

/-- The number of the node of a call site is the same. -/
theorem node_eq (h : InStep a g) (s : InstId) : a.node s = g.node s := by
  unfold CallPathArena.node CallPathGraph.node
  cases hs : g.node? s with
  | some n => rw [h.get?_index, hs]
  | none => rw [h.get?_index, hs]

/-- A call site is given the same number. -/
theorem ensureNode_snd (h : InStep a g) (s : InstId) (F : FunctionId) :
    (a.ensureNode s F).2 = (g.ensureNode s F).2 := by
  rw [ensureNode, CallPathGraph.ensureNode, h.get?_index, h.nodes_eq]
  cases g.node? s with
  | some n => rfl
  | none => rfl

/-- An edge is there between numbers when it is there between their call sites. -/
theorem mem_edges_iff (h : InStep a g) (hi : g.node? i = some m) (ho : g.node? o = some n) :
    (m, n) ∈ a.edges ↔ ⟨i, o⟩ ∈ g.edges := by
  obtain ⟨-, -, hedges⟩ := h
  generalize a.edges = pairs at hedges
  generalize g.edges = edges at hedges
  induction hedges with
  | nil => simp
  | @cons p e _ _ hpair _ ih =>
    have hhead : (m, n) = p ↔ ⟨i, o⟩ = e := by
      constructor
      · rintro rfl
        rw [node?_inj hi hpair.1, node?_inj ho hpair.2]
      · rintro rfl
        exact Prod.ext (Option.some.inj (hi.symm.trans hpair.1))
          (Option.some.inj (ho.symm.trans hpair.2))
    rw [List.mem_cons, List.mem_cons, hhead, ih]

/-- The neighbours are found at the far ends of the same edges. -/
theorem neighbors_eq (h : InStep a g) (hs : g.node? s = some n) {pairs : List (Nat × Nat)}
    {edges : List CallPathEdge}
    (hedges : List.Forall₂ (fun p e => g.node? (near' e) = some (near p) ∧
      g.node? (far' e) = some (far p)) pairs edges) :
    ((pairs.filter (near · == n)).filterMap fun p => a.nodes[far p]?.map (·.callSite)) =
      (edges.filter (near' · == s)).map far' := by
  rw [h.nodes_eq]
  induction hedges with
  | nil => rfl
  | @cons p e _ _ hpair _ ih =>
    obtain ⟨hnear, hfar⟩ := hpair
    obtain ⟨F, hF⟩ := getElem?_of_node? hfar
    -- The number at the near end is that of the call site when the call site there is the same.
    by_cases hes : near' e = s
    · have hpn : near p = n := Option.some.inj (hnear.symm.trans (hes ▸ hs))
      rw [List.filter_cons_of_pos (by simpa), List.filter_cons_of_pos (by simpa),
        List.filterMap_cons_some (by rw [hF]; rfl), List.map_cons, ih]
    · have hpn : near p ≠ n := fun hpn => hes (node?_inj hnear (hpn ▸ hs))
      rw [List.filter_cons_of_neg (by simpa), List.filter_cons_of_neg (by simpa), ih]

/-- The call sites one level further out are the same. -/
theorem outerNeighbors_eq (h : InStep a g) (s : InstId) :
    a.outerNeighbors s = g.outerNeighbors s := by
  rw [outerNeighbors, neighbors, h.node_eq, CallPathGraph.outerNeighbors, CallPathGraph.node]
  cases hs : g.node? s with
  | none => rfl
  | some n => exact congrArg (Except.ok ∘ OrderedSet.ofList) (h.neighbors_eq hs h.edges)

/-- The call sites one level nearer to an allocation are the same. -/
theorem innerNeighbors_eq (h : InStep a g) (s : InstId) :
    a.innerNeighbors s = g.innerNeighbors s := by
  rw [innerNeighbors, neighbors, h.node_eq, CallPathGraph.innerNeighbors, CallPathGraph.node]
  cases hs : g.node? s with
  | none => rfl
  | some n =>
    exact congrArg (Except.ok ∘ OrderedSet.ofList)
      (h.neighbors_eq hs (h.edges.imp fun _ _ hpair => hpair.symm))

/-- Nodes that are put at the end and edges that stay leave the edges of the arena as they are. -/
theorem edges_of_prefix {g' : CallPathGraph} (h : InStep a g) (hnodes : g.nodes <+: g'.nodes) :
    List.Forall₂ (fun p e => g'.node? e.inner = some p.1 ∧ g'.node? e.outer = some p.2)
      a.edges g.edges :=
  h.edges.imp fun _ _ hpair =>
    ⟨CallPathGraph.node?_of_prefix hnodes hpair.1, CallPathGraph.node?_of_prefix hnodes hpair.2⟩

/-- A node that the arena gets is one that the graph gets. -/
theorem ensureNode (h : InStep a g) (s : InstId) (F : FunctionId) :
    InStep (a.ensureNode s F).1 (g.ensureNode s F).1 := by
  rw [CallPathArena.ensureNode, CallPathGraph.ensureNode, h.get?_index]
  cases hs : g.node? s with
  | some n => exact h
  | none =>
    refine ⟨by rw [h.nodes_eq], fun t => ?_, h.edges_of_prefix (List.prefix_append _ _)⟩
    rw [OrderedMap.get?_insert, h.get?_index, h.nodes_eq, node?_append_singleton]
    by_cases hts : t = s
    · subst hts
      simp [hs]
    · simp [hts]

/-- An edge that the arena gets is one that the graph gets, and both refuse the same edges. -/
theorem link (h : InStep a g) (i o : InstId) :
    (∃ a' g', a.link i o = .ok a' ∧ g.link i o = .ok g' ∧ InStep a' g') ∨
      ∃ violation, a.link i o = .error violation ∧ g.link i o = .error violation := by
  rw [CallPathArena.link, CallPathGraph.link_eq, h.node_eq, h.node_eq, CallPathGraph.node,
    CallPathGraph.node, CallPathGraph.contains, CallPathGraph.contains]
  cases hi : g.node? i with
  | none => exact .inr ⟨_, rfl, rfl⟩
  | some m =>
    cases ho : g.node? o with
    | none => exact .inr ⟨_, rfl, rfl⟩
    | some n =>
      refine .inl ⟨_, _, rfl, rfl, ?_⟩
      by_cases hmem : ⟨i, o⟩ ∈ g.edges
      · rw [if_pos hmem, if_pos (List.contains_iff_mem.2 ((h.mem_edges_iff hi ho).2 hmem))]
        exact h
      · rw [if_neg hmem,
          if_neg fun hc => hmem ((h.mem_edges_iff hi ho).1 (List.contains_iff_mem.1 hc))]
        exact ⟨h.nodes_eq, h.get?_index, List.rel_append h.edges (.cons ⟨hi, ho⟩ .nil)⟩

/-- The arena refuses the same edges. -/
theorem errorOf?_link (h : InStep a g) (i o : InstId) :
    errorOf? (a.link i o) = errorOf? (g.link i o) := by
  rcases h.link i o with ⟨a', g', ha, hg, -⟩ | ⟨violation, ha, hg⟩
  · rw [ha, hg]
    rfl
  · rw [ha, hg]
    rfl

/-- A graph with the same nodes and edges is in step, too. -/
theorem congr {g' : CallPathGraph} (h : InStep a g) (hnodes : g'.nodes = g.nodes)
    (hedges : g'.edges = g.edges) : InStep a g' where
  nodes_eq := by rw [h.nodes_eq, hnodes]
  get?_index s := by rw [h.get?_index, CallPathGraph.node?, CallPathGraph.node?, hnodes]
  edges := by
    rw [hedges]
    exact h.edges_of_prefix (by rw [hnodes])

/-- Every step keeps an arena and a graph in step. -/
theorem apply (h : InStep a g) (step : GraphStep) : InStep (a.apply step) (g.apply step) := by
  cases step with
  | ensureNode s F => exact h.ensureNode s F
  | link i o =>
    rw [CallPathArena.apply, CallPathGraph.apply]
    rcases h.link i o with ⟨a', g', ha, hg, hstep⟩ | ⟨violation, ha, hg⟩
    · rw [ha, hg]
      exact hstep
    · rw [ha, hg]
      exact h
  | _ => exact h.congr CallPathGraph.nodes_apply CallPathGraph.edges_apply

/-- An arena and a graph that the same steps have made are in step. -/
theorem ofSteps (steps : List GraphStep) :
    InStep (CallPathArena.ofSteps steps) (CallPathGraph.ofSteps steps) := by
  induction steps using List.reverseRecOn with
  | nil => exact empty
  | append_singleton steps step ih =>
    rw [CallPathGraph.ofSteps_concat, CallPathArena.ofSteps, List.foldl_append]
    exact ih.apply step

end InStep

end CallPathArena

/-! ## Graphs that are made step by step -/

namespace CallPathGraph

/-- What steps have done to a graph is what the arena, its index and its edges say. -/
structure KeepsArena (steps : List GraphStep) : Prop where
  /-- The call sites with a node are numbered one to one. -/
  bijOn_node? : Set.BijOn (ofSteps steps).node? {s | (ofSteps steps).contains s = true}
    (some '' Set.Iio (ofSteps steps).nodes.length)
  /-- The number of a call site is that of its node. -/
  node?_eq_some_iff : ∀ s n,
    (ofSteps steps).node? s = some n ↔ ∃ F, (ofSteps steps).nodes[n]? = some ⟨s, F⟩
  /-- A call site has a node when some step asked for one. -/
  contains_iff : ∀ s, (ofSteps steps).contains s = true ↔ ∃ F, .ensureNode s F ∈ steps
  /-- The node of a call site is of the function of the first step that asked for one. -/
  mem_nodes_iff : ∀ s F, ⟨s, F⟩ ∈ (ofSteps steps).nodes ↔ FirstMade steps s F
  /-- More steps leave the nodes as they are. -/
  nodes_prefix : ∀ more, (ofSteps steps).nodes <+: (ofSteps (steps ++ more)).nodes
  /-- More steps leave the numbers of call sites as they are. -/
  node?_append : ∀ more s n,
    (ofSteps steps).node? s = some n → (ofSteps (steps ++ more)).node? s = some n
  /-- The number that is given out is that of the call site. -/
  node?_ensureNode : ∀ s F, (ofSteps (steps ++ [.ensureNode s F])).node? s =
    some ((ofSteps steps).ensureNode s F).2
  /-- The call sites one level further out are those to which an edge was added. -/
  mem_outerNeighbors_iff : ∀ i o,
    (∃ sites, (ofSteps steps).outerNeighbors i = .ok sites ∧ o ∈ sites) ↔ Linked steps i o
  /-- The call sites one level further in are those from which an edge was added. -/
  mem_innerNeighbors_iff : ∀ i o,
    (∃ sites, (ofSteps steps).innerNeighbors o = .ok sites ∧ i ∈ sites) ↔ Linked steps i o
  /-- The edges are as many as call sites were joined. -/
  encard_linked : {e : CallPathEdge | Linked steps e.inner e.outer}.encard =
    (ofSteps steps).edges.length
  /-- An edge is refused when one of its call sites has no node, the inner one before the outer. -/
  errorOf?_link : ∀ i o, errorOf? ((ofSteps steps).link i o) =
    if (ofSteps steps).contains i then
      if (ofSteps steps).contains o then none else some (.unknownCallSite o)
    else some (.unknownCallSite i)
  /-- An edge that is refused changes nothing. -/
  ofSteps_link : ∀ i o, errorOf? ((ofSteps steps).link i o) ≠ none →
    ofSteps (steps ++ [.link i o]) = ofSteps steps
  /-- The call sites with a node are those with a role. -/
  exists_role_iff : ∀ s,
    (∃ role, (ofSteps steps).role s = .ok role) ↔ (ofSteps steps).contains s = true
  /-- The role of a call site with a node is that of an entry when it was made one. -/
  role_eq_entry_iff : ∀ s, (ofSteps steps).role s = .ok .entry ↔
    (ofSteps steps).contains s = true ∧ .markEntry s ∈ steps
  /-- The arena that the steps make holds the graph. -/
  inStep : (CallPathArena.ofSteps steps).InStep (ofSteps steps)
  /-- The arena gives out the same numbers. -/
  arena_ensureNode : ∀ s F, ((CallPathArena.ofSteps steps).ensureNode s F).2 =
    ((ofSteps steps).ensureNode s F).2
  /-- The arena refuses the same edges. -/
  arena_link : ∀ i o, errorOf? ((CallPathArena.ofSteps steps).link i o) =
    errorOf? ((ofSteps steps).link i o)
  /-- The arena finds the same neighbours. -/
  arena_neighbors : ∀ s,
    (CallPathArena.ofSteps steps).outerNeighbors s = (ofSteps steps).outerNeighbors s ∧
      (CallPathArena.ofSteps steps).innerNeighbors s = (ofSteps steps).innerNeighbors s

/-- Steps keep a call-path graph one that an arena holds, whether they succeed or fail: nodes are
numbered one to one and for good, neighbours are the call sites that an edge was added between, and
a call site with a node has a role, that of an entry when it was made one. -/
theorem keepsArena_ofSteps (steps : List GraphStep) : KeepsArena steps where
  bijOn_node? := bijOn_node? traced_ofSteps.callSites_nodup
  node?_eq_some_iff s n :=
    ⟨getElem?_of_node?, fun ⟨_, hF⟩ => node?_of_getElem? traced_ofSteps.callSites_nodup hF⟩
  contains_iff s := traced_ofSteps.contains_iff
  mem_nodes_iff s F := traced_ofSteps.mem_nodes_iff
  nodes_prefix more := nodes_prefix
  node?_append more s n := node?_of_prefix nodes_prefix
  node?_ensureNode s F := by rw [ofSteps_concat, apply, node?_ensureNode]
  mem_outerNeighbors_iff i o := by
    rw [exists_mem_outerNeighbors_iff edgesJoinNodes_ofSteps, traced_ofSteps.outward_iff]
  mem_innerNeighbors_iff i o := by
    rw [exists_mem_innerNeighbors_iff edgesJoinNodes_ofSteps, traced_ofSteps.outward_iff]
  encard_linked := by
    rw [← encard_edges traced_ofSteps.edges_nodup]
    simp only [traced_ofSteps.outward_iff]
  errorOf?_link i o := errorOf?_link
  ofSteps_link i o hfail := by rw [ofSteps_concat, apply_link_of_errorOf? hfail]
  exists_role_iff s := ⟨fun ⟨_, hrole⟩ => contains_of_role hrole, fun hs => ⟨_, role_eq_ok hs⟩⟩
  role_eq_entry_iff s := by rw [role_eq_ok_entry_iff, traced_ofSteps.mem_entries_iff]
  inStep := .ofSteps steps
  arena_ensureNode := (CallPathArena.InStep.ofSteps steps).ensureNode_snd
  arena_link := (CallPathArena.InStep.ofSteps steps).errorOf?_link
  arena_neighbors s := ⟨(CallPathArena.InStep.ofSteps steps).outerNeighbors_eq s,
    (CallPathArena.InStep.ofSteps steps).innerNeighbors_eq s⟩

/-- A call site asked for twice keeps its function, an edge added twice is one edge even if it leads
back to where it starts, and an edge to a call site without a node is not added. -/
example : ofSteps [.ensureNode ⟨1⟩ ⟨0⟩, .ensureNode ⟨1⟩ ⟨9⟩, .link ⟨1⟩ ⟨1⟩, .link ⟨1⟩ ⟨1⟩,
    .link ⟨1⟩ ⟨2⟩] = { empty with nodes := [⟨⟨1⟩, ⟨0⟩⟩], edges := [⟨⟨1⟩, ⟨1⟩⟩] } := by
  decide

end CallPathGraph

end HeapDomains
