import HeapDomains.Proofs.CallPath.Steps
import HeapDomains.Proofs.CallPath.Exempt

/-!
# The search for descendants of entries

The descendants of entries as a search of the graph finds them, entry by entry. `PathSearch` is such
a search between two rounds: the call sites that were visited and those that wait for it. A round
visits the first one that waits and lets those of its inner neighbours wait that were not known, in
any order. As no call site is known twice (`PathSearch.Invariant`), a search ends after as many
rounds as there are nodes at the latest, and then it has visited the call sites from which it is
reached where it began. So the searches from all entries find what `descendantsOfEntries` is, on
every graph that is made step by step (`findsDescendants_ofSteps`): with cycles and loops, and with
entries that have no node.
-/

namespace HeapDomains

/-- A search for call sites between two of its rounds. -/
structure PathSearch where
  /-- The call sites that were visited, in this order. -/
  visited : List InstId
  /-- The call sites that wait to be visited, in this order. -/
  queue : List InstId

namespace PathSearch

/-- The call sites that a search has come across. -/
def known (t : PathSearch) : List InstId := t.visited ++ t.queue

/-- A round of a search visits the first call site of the queue, and puts the inner neighbours that
it has not come across at the end of the queue. -/
inductive Round (g : CallPathGraph) : PathSearch → PathSearch → Prop
  | visit {visited rest new : List InstId} {site : InstId} : new.Nodup →
    (∀ i, i ∈ new ↔ g.Outward i site ∧ i ∉ known ⟨visited, site :: rest⟩) →
    Round g ⟨visited, site :: rest⟩ ⟨visited ++ [site], rest ++ new⟩

variable {g : CallPathGraph} {t t' : PathSearch} {e : InstId}

/-- What holds of a search that began at a call site. -/
structure Invariant (g : CallPathGraph) (e : InstId) (t : PathSearch) : Prop where
  /-- No call site is known twice. -/
  nodup : t.known.Nodup
  /-- The search knows the call site where it began. -/
  start_mem : e ∈ t.known
  /-- From the call sites that it knows, that one is reached going outwards. -/
  reaches : ∀ s ∈ t.known, Relation.ReflTransGen g.Outward s e
  /-- It knows the inner neighbours of the call sites that it visited. -/
  closed : ∀ o ∈ t.visited, ∀ i, g.Outward i o → i ∈ t.known

namespace Invariant

/-- It holds at the beginning. -/
theorem start : Invariant g e ⟨[], [e]⟩ where
  nodup := List.nodup_singleton e
  start_mem := List.mem_singleton_self e
  reaches s hs := by
    obtain rfl := List.mem_singleton.1 hs
    exact .refl
  closed o ho := absurd ho List.not_mem_nil

/-- A round keeps it. -/
theorem round (h : Invariant g e t) (hround : Round g t t') : Invariant g e t' := by
  cases hround with
  | @visit visited rest new site hnodup hnew =>
    -- The round moves the call site that it visits, and what it comes across is put at the end.
    have hknown : known ⟨visited ++ [site], rest ++ new⟩ = known ⟨visited, site :: rest⟩ ++ new := by
      simp [known]
    have hsite : site ∈ known ⟨visited, site :: rest⟩ := by simp [known]
    constructor
    · rw [hknown, List.nodup_append]
      refine ⟨h.nodup, hnodup, ?_⟩
      rintro a ha b hb rfl
      exact ((hnew a).1 hb).2 ha
    · rw [hknown]
      exact List.mem_append_left _ h.start_mem
    · intro s hs
      rw [hknown] at hs
      rcases List.mem_append.1 hs with hs | hs
      · exact h.reaches s hs
      · have hedge : g.Outward s site := ((hnew s).1 hs).1
        exact .head hedge (h.reaches site hsite)
    · intro o ho i hedge
      rw [hknown, List.mem_append]
      rcases List.mem_append.1 ho with ho | ho
      · exact Or.inl (h.closed o ho i hedge)
      · obtain rfl := List.mem_singleton.1 ho
        by_cases hi : i ∈ known ⟨visited, o :: rest⟩
        · exact Or.inl hi
        · exact Or.inr ((hnew i).2 ⟨hedge, hi⟩)

/-- When nothing waits, the visited call sites are those from which it is reached where the search
began. -/
theorem mem_visited_iff (h : Invariant g e t) (hqueue : t.queue = []) {s : InstId} :
    s ∈ t.visited ↔ Relation.ReflTransGen g.Outward s e := by
  have hknown : t.known = t.visited := by rw [known, hqueue, List.append_nil]
  constructor
  · intro hs
    exact h.reaches s (hknown ▸ hs)
  · intro hpath
    -- Going back along the path, all inner neighbours of visited call sites are visited too.
    induction hpath using Relation.ReflTransGen.head_induction_on with
    | refl => exact hknown ▸ h.start_mem
    | head hedge _ ih => exact hknown ▸ h.closed _ ih _ hedge

end Invariant

end PathSearch

namespace CallPathGraph

/-- After a number of rounds, a search from a call site has come this far. -/
inductive SearchesFrom (g : CallPathGraph) (e : InstId) : Nat → PathSearch → Prop
  /-- At first only the call site itself waits. -/
  | start : SearchesFrom g e 0 ⟨[], [e]⟩
  /-- The search goes on by a round. -/
  | round {n : Nat} {t t' : PathSearch} : SearchesFrom g e n t → t.Round g t' →
    SearchesFrom g e (n + 1) t'

variable {g : CallPathGraph} {steps : List GraphStep} {t : PathSearch} {e s : InstId} {n : Nat}

/-- What holds of searches holds wherever one has come to. -/
theorem SearchesFrom.invariant (h : g.SearchesFrom e n t) : t.Invariant g e := by
  induction h with
  | start => exact .start
  | round _ hround ih => exact ih.round hround

/-- A search visits one call site in every round. -/
theorem SearchesFrom.length_visited (h : g.SearchesFrom e n t) : t.visited.length = n := by
  induction h with
  | start => rfl
  | round _ hround ih =>
    cases hround with
    | visit _ _ => rw [List.length_append, ih, List.length_singleton]

/-- Call sites from which one with a node is reached have a node. -/
theorem EdgesJoinNodes.contains_of_reaches (hg : EdgesJoinNodes g) (he : g.contains e = true)
    (h : Relation.ReflTransGen g.Outward s e) : g.contains s = true := by
  rcases h.cases_head with rfl | ⟨o, hedge, -⟩
  · exact he
  · exact (hg s o hedge).1

/-- A search from a call site with a node takes no more rounds than there are nodes. -/
theorem SearchesFrom.le_length_nodes (h : g.SearchesFrom e n t) (hg : EdgesJoinNodes g)
    (he : g.contains e = true) : n ≤ g.nodes.length := by
  have hvisited : t.visited.Nodup := (List.nodup_append.1 h.invariant.nodup).1
  have hsub : t.visited ⊆ g.nodes.map (·.callSite) := by
    intro s hs
    have hpath : Relation.ReflTransGen g.Outward s e :=
      h.invariant.reaches s (List.mem_append_left _ hs)
    obtain ⟨node, hnode, rfl⟩ := contains_iff.1 (hg.contains_of_reaches he hpath)
    exact List.mem_map_of_mem hnode
  have hle : t.visited.length ≤ (g.nodes.map (·.callSite)).length :=
    (List.subperm_of_subset hvisited hsub).length_le
  rw [List.length_map, h.length_visited] at hle
  exact hle

/-- A search in which a call site with a node waits goes on. -/
theorem exists_round {site : InstId} {rest : List InstId} (hqueue : t.queue = site :: rest)
    (hsite : g.contains site = true) : ∃ t', t.Round g t' := by
  obtain ⟨visited, queue⟩ := t
  obtain rfl : queue = site :: rest := hqueue
  obtain ⟨index, hindex⟩ := node_eq_ok hsite
  obtain ⟨inner, hinner⟩ : ∃ inner, g.innerNeighbors site = .ok inner := by
    rw [innerNeighbors, hindex]
    exact ⟨_, rfl⟩
  have hnew : ∀ i, i ∈ inner.toList.filter (· ∉ PathSearch.known ⟨visited, site :: rest⟩) ↔
      g.Outward i site ∧ i ∉ PathSearch.known ⟨visited, site :: rest⟩ := by
    intro i
    rw [List.mem_filter, decide_eq_true_iff, ← OrderedSet.mem_def, mem_innerNeighbors hinner]
  exact ⟨_, .visit (inner.nodup.filter _) hnew⟩

/-- A search from a call site with a node goes on until nothing waits. -/
theorem SearchesFrom.exists_round (h : g.SearchesFrom e n t) (hg : EdgesJoinNodes g)
    (he : g.contains e = true) (hqueue : t.queue ≠ []) : ∃ t', t.Round g t' := by
  obtain ⟨site, rest, hcons⟩ := List.exists_cons_of_ne_nil hqueue
  have hknown : site ∈ t.known := by
    rw [PathSearch.known, hcons]
    exact List.mem_append_right _ List.mem_cons_self
  exact CallPathGraph.exists_round hcons
    (hg.contains_of_reaches he (h.invariant.reaches site hknown))

/-- A search from a call site with a node comes to an end. -/
theorem SearchesFrom.exists_end (h : g.SearchesFrom e n t) (hg : EdgesJoinNodes g)
    (he : g.contains e = true) : ∃ n t, g.SearchesFrom e n t ∧ t.queue = [] := by
  -- The induction is on the rounds that are left.
  induction hleft : g.nodes.length - n using Nat.strong_induction_on generalizing n t with
  | _ left ih =>
    by_cases hqueue : t.queue = []
    · exact ⟨n, t, h, hqueue⟩
    · obtain ⟨t', hround⟩ := h.exists_round hg he hqueue
      have hle : n + 1 ≤ g.nodes.length := (h.round hround).le_length_nodes hg he
      exact ih (g.nodes.length - (n + 1)) (by omega) (h.round hround) rfl

namespace EdgesJoinNodes

/-- A search from a call site with a node that comes to an end visits those from which it is
reached. -/
theorem exists_visited_iff (hg : EdgesJoinNodes g) (he : g.contains e = true) :
    (∃ n t, g.SearchesFrom e n t ∧ t.queue = [] ∧ s ∈ t.visited) ↔
      Relation.ReflTransGen g.Outward s e := by
  constructor
  · rintro ⟨n, t, h, hqueue, hs⟩
    exact (h.invariant.mem_visited_iff hqueue).1 hs
  · intro hpath
    obtain ⟨n, t, h, hqueue⟩ := (SearchesFrom.start (g := g) (e := e)).exists_end hg he
    exact ⟨n, t, h, hqueue, (h.invariant.mem_visited_iff hqueue).2 hpath⟩

/-- The descendants of entries are the call sites, other than entries, from which an entry with a
node is reached. -/
theorem mem_descendants_iff (hg : EdgesJoinNodes g) : s ∈ g.descendantsOfEntries ↔ s ∉ g.entries ∧
    ∃ e ∈ g.entries, g.contains e = true ∧ Relation.ReflTransGen g.Outward s e :=
  mem_descendantsOfEntries fun i o hedge => (hg i o hedge).1

/-- The descendants of entries have a node. -/
theorem contains_of_mem_descendants (hg : EdgesJoinNodes g) (hs : s ∈ g.descendantsOfEntries) :
    g.contains s = true := by
  obtain ⟨-, e, -, he, hpath⟩ := hg.mem_descendants_iff.1 hs
  exact hg.contains_of_reaches he hpath

end EdgesJoinNodes

/-- What the descendants of entries are, and how a search finds them. -/
structure FindsDescendants (g : CallPathGraph) : Prop where
  /-- A search from an entry with a node takes no more rounds than there are nodes. -/
  rounds_le : ∀ e ∈ g.entries, g.contains e = true → ∀ n t, g.SearchesFrom e n t →
    n ≤ g.nodes.length
  /-- Until then it goes on as long as a call site waits. -/
  exists_round : ∀ e ∈ g.entries, g.contains e = true → ∀ n t, g.SearchesFrom e n t →
    t.queue ≠ [] → ∃ t', t.Round g t'
  /-- At its end, in whatever order it went, it has visited the call sites from which the entry is
  reached. -/
  mem_visited_iff : ∀ e ∈ g.entries, g.contains e = true → ∀ n t, g.SearchesFrom e n t →
    t.queue = [] → ∀ s, s ∈ t.visited ↔ Relation.ReflTransGen g.Outward s e
  /-- The descendants are what the searches visit, without the entries. -/
  mem_iff_visited : ∀ s, s ∈ g.descendantsOfEntries ↔ s ∉ g.entries ∧
    ∃ e ∈ g.entries, g.contains e = true ∧
      ∃ n t, g.SearchesFrom e n t ∧ t.queue = [] ∧ s ∈ t.visited
  /-- They are the call sites with a node, other than entries, from which an entry with a node is
  reached going outwards. -/
  mem_iff : ∀ s, s ∈ g.descendantsOfEntries ↔ g.contains s = true ∧ s ∉ g.entries ∧
    ∃ e ∈ g.entries, g.contains e = true ∧ Relation.ReflTransGen g.Outward s e

/-- The search finds the descendants in every graph that steps have made. -/
theorem findsDescendants_ofSteps : FindsDescendants (ofSteps steps) := by
  have hg : EdgesJoinNodes (ofSteps steps) := edgesJoinNodes_ofSteps
  constructor
  · exact fun e _ he n t h => h.le_length_nodes hg he
  · exact fun e _ he n t h hqueue => h.exists_round hg he hqueue
  · exact fun e _ _ n t h hqueue s => h.invariant.mem_visited_iff hqueue
  · intro s
    rw [hg.mem_descendants_iff]
    refine and_congr_right fun _ => exists_congr fun e => and_congr_right fun _ =>
      and_congr_right fun he => ?_
    exact (hg.exists_visited_iff he).symm
  · intro s
    constructor
    · intro hs
      exact ⟨hg.contains_of_mem_descendants hs, hg.mem_descendants_iff.1 hs⟩
    · rintro ⟨-, hs⟩
      exact hg.mem_descendants_iff.2 hs

/-- Two call sites in a cycle, of which the second is an entry, one with a loop, and an entry without
a node: only the first call site is below an entry. -/
example : (ofSteps [.ensureNode ⟨1⟩ ⟨0⟩, .ensureNode ⟨2⟩ ⟨0⟩, .ensureNode ⟨3⟩ ⟨0⟩, .link ⟨1⟩ ⟨2⟩,
    .link ⟨2⟩ ⟨1⟩, .link ⟨3⟩ ⟨3⟩, .markEntry ⟨2⟩, .markEntry ⟨9⟩]).descendantsOfEntries.toList =
      [⟨1⟩] := by
  decide

end CallPathGraph

end HeapDomains
