import HeapDomains.Proofs.CallPath.Paths
import HeapDomains.Proofs.Ordered

/-!
# Exempt call sites

Which call sites the two strategies exempt. The search for the call sites below an entry widens a
set until nothing is new: all it finds reaches an entry (`saturate_sound`), and as every round finds
a node, as many rounds as there are nodes leave nothing out (`saturate_closed`). So it finds every
call site that reaches an entry (`mem_descendantsOfEntries`), and on a graph that is built those are
all call sites other than entries: the first strategy leaves none guarded, the second exempts none.
-/

namespace HeapDomains

namespace CallPathGraph

variable {p : Program} {config : PassConfig} {c : Classification} {g : CallPathGraph}
  {edges : List CallPathEdge} {sites : OrderedSet InstId} {s i : InstId} {n : Nat}

/-! ## The search -/

/-- A widened set has the call sites from before and those with an edge into the set. -/
theorem mem_widen : i ∈ widen edges sites ↔ i ∈ sites ∨ ∃ o ∈ sites, ⟨i, o⟩ ∈ edges := by
  rw [widen, OrderedSet.mem_union, OrderedSet.mem_ofList, List.mem_map]
  refine or_congr Iff.rfl ⟨?_, ?_⟩
  · rintro ⟨e, he, rfl⟩
    rw [List.mem_filter, OrderedSet.contains_iff] at he
    exact ⟨e.outer, he.2, he.1⟩
  · rintro ⟨o, ho, he⟩
    exact ⟨⟨i, o⟩, List.mem_filter.2 ⟨he, OrderedSet.contains_iff.2 ho⟩, rfl⟩

/-- A set that widening changes has grown. -/
theorem size_lt_size_widen (h : widen edges sites ≠ sites) :
    sites.size < (widen edges sites).size := by
  refine Nat.lt_of_not_le fun hle => h ?_
  exact (OrderedSet.eq_of_subset_of_size_le (fun _ hx => mem_widen.2 (Or.inl hx)) hle).symm

/-- The search keeps what it starts from. -/
theorem mem_saturate_of_mem (hs : s ∈ sites) : s ∈ saturate edges n sites := by
  induction n generalizing sites with
  | zero => exact hs
  | succ n ih =>
    rw [saturate]
    split
    · exact hs
    · exact ih (mem_widen.2 (Or.inl hs))

/-- All that the search finds reaches what it starts from. -/
theorem saturate_sound (hs : s ∈ saturate edges n sites) :
    ∃ e ∈ sites, Relation.ReflTransGen (fun i o => ⟨i, o⟩ ∈ edges) s e := by
  induction n generalizing sites with
  | zero => exact ⟨s, hs, .refl⟩
  | succ n ih =>
    rw [saturate] at hs
    split at hs
    · exact ⟨s, hs, .refl⟩
    · obtain ⟨m, hm, hpath⟩ := ih hs
      rcases mem_widen.1 hm with hm | ⟨o, ho, hedge⟩
      · exact ⟨m, hm, hpath⟩
      · exact ⟨o, ho, hpath.tail hedge⟩

/-- Among call sites that edges do not leave, as many rounds as there are call sites outside the set
leave nothing out. -/
theorem saturate_closed {all : List InstId} (hall : ∀ i o, ⟨i, o⟩ ∈ edges → i ∈ all)
    (hsites : ∀ s ∈ sites, s ∈ all) (hn : all.length ≤ n + sites.size) {i o : InstId}
    (hedge : ⟨i, o⟩ ∈ edges) (ho : o ∈ saturate edges n sites) : i ∈ saturate edges n sites := by
  induction n generalizing sites with
  | zero => exact OrderedSet.mem_of_length_le_size hsites (by omega) (hall i o hedge)
  | succ n ih =>
    rw [saturate] at ho ⊢
    split at ho
    · rename_i hfixed
      -- Nothing was new in this round, so the set is closed already.
      rw [if_pos hfixed, ← hfixed]
      exact mem_widen.2 (Or.inr ⟨o, ho, hedge⟩)
    · rename_i hnew
      -- Something was new, so one call site less is outside and one round less is enough.
      rw [if_neg hnew]
      refine ih ?_ ?_ ho
      · intro x hx
        rcases mem_widen.1 hx with hx | ⟨o', -, he⟩
        · exact hsites x hx
        · exact hall x o' he
      · have := size_lt_size_widen hnew
        omega

/-- The descendants of entries are the call sites, other than entries, from which an entry with a
node is reached going outwards. -/
theorem mem_descendantsOfEntries (hnode : ∀ i o, g.Outward i o → g.contains i = true) :
    s ∈ g.descendantsOfEntries ↔ s ∉ g.entries ∧
      ∃ e ∈ g.entries, g.contains e = true ∧ Relation.ReflTransGen g.Outward s e := by
  have hall : ∀ i, g.contains i = true → i ∈ g.nodes.map (·.callSite) := by
    intro i hi
    rw [← OrderedSet.mem_ofList]
    exact mem_callSites.2 hi
  rw [descendantsOfEntries, OrderedSet.mem_filter, Bool.not_eq_true', ← Bool.not_eq_true,
    OrderedSet.contains_iff]
  constructor
  · rintro ⟨hs, hentry⟩
    obtain ⟨e, he, hpath⟩ := saturate_sound hs
    rw [OrderedSet.mem_filter] at he
    exact ⟨hentry, e, he.1, he.2, hpath⟩
  · rintro ⟨hentry, e, he, hcontains, hpath⟩
    refine ⟨?_, hentry⟩
    have hstart : e ∈ saturate g.edges g.nodes.length (g.entries.filter g.contains) :=
      mem_saturate_of_mem (OrderedSet.mem_filter.2 ⟨he, hcontains⟩)
    clear hentry
    -- Going back along the path, the search finds one call site after the other.
    induction hpath using Relation.ReflTransGen.head_induction_on with
    | refl => exact hstart
    | head hedge _ ih =>
      refine saturate_closed (fun i o he => hall i (hnode i o he)) ?_ ?_ hedge ih
      · exact fun x hx => hall x (OrderedSet.mem_filter.1 hx).2
      · rw [List.length_map]
        omega

/-! ## Roles in a graph that is built -/

/-- An entry has a node. -/
theorem contains_of_mem_entries (h : build p config c = .ok g) (hs : s ∈ g.entries) :
    g.contains s = true := by
  have hpaths := pathsOf_of_build h
  obtain ⟨path, hpath, hlast⟩ := hpaths.mem_entries_iff.1 hs
  exact hpaths.contains_iff.2 (Or.inl ⟨path, hpath, List.mem_of_getLast? hlast⟩)

/-- The second strategy exempts nothing. -/
theorem exempt_eq_empty_of_disabled (h : build p config c = .ok g)
    (hexemption : config.exemption = .disabled) : g.exempt = OrderedSet.empty := by
  obtain ⟨g₀, -, rfl⟩ := walk_of_build h
  rw [hexemption]
  rfl

/-- The first strategy exempts all call sites other than entries, the second none. -/
theorem mem_exempt_iff (h : build p config c = .ok g) :
    s ∈ g.exempt ↔
      config.exemption = .descendants ∧ g.contains s = true ∧ s ∉ g.entries := by
  have hnode : ∀ i o, g.Outward i o → g.contains i = true := fun i o he =>
    ((argBitsMirror_of_build h).contains_of_outward he).1
  obtain ⟨g₀, -, hg⟩ := walk_of_build h
  cases hexemption : config.exemption with
  | descendants =>
    -- The search looks at nodes, edges and entries only, which exempting leaves alone.
    have hexempt : g.exempt = g.descendantsOfEntries := by
      rw [hg, hexemption]
      rfl
    rw [hexempt, mem_descendantsOfEntries hnode]
    constructor
    · rintro ⟨hentry, e, he, hcontains, hpath⟩
      refine ⟨rfl, ?_, hentry⟩
      rcases hpath.cases_head with rfl | ⟨o, hedge, -⟩
      · exact hcontains
      · exact hnode _ _ hedge
    · rintro ⟨-, hs, hentry⟩
      obtain ⟨e, he, hpath⟩ := reaches_entry h hs
      exact ⟨hentry, e, he, contains_of_mem_entries h he, hpath⟩
  | disabled =>
    rw [exempt_eq_empty_of_disabled h hexemption]
    simp

/-- An entry has the role of an entry. -/
theorem role_of_mem_entries (h : build p config c = .ok g) (hs : s ∈ g.entries) :
    g.role s = .ok .entry := by
  rw [role_eq_ok (contains_of_mem_entries h hs), if_pos hs]

/-- The entries are the call sites with the role of an entry. -/
theorem role_eq_entry_iff (h : build p config c = .ok g) :
    g.role s = .ok .entry ↔ s ∈ g.entries :=
  ⟨fun hrole => (role_eq_ok_entry_iff.1 hrole).2, role_of_mem_entries h⟩

/-- The exempt call sites are those with the role of one. -/
theorem role_eq_exempt_iff (h : build p config c = .ok g) :
    g.role s = .ok .exempt ↔ s ∈ g.exempt := by
  constructor
  · intro hrole
    rw [role_eq_ok (contains_of_role hrole)] at hrole
    by_contra hexempt
    rw [if_neg hexempt] at hrole
    split at hrole
    · exact absurd (Except.ok.inj hrole) (by decide)
    · exact absurd (Except.ok.inj hrole) (by decide)
  · intro hexempt
    obtain ⟨-, hs, hentry⟩ := (mem_exempt_iff h).1 hexempt
    rw [role_eq_ok hs, if_neg hentry, if_pos hexempt]

/-- Under the first strategy all other nodes are exempt. -/
theorem role_of_descendants (h : build p config c = .ok g)
    (hexemption : config.exemption = .descendants) (hs : g.contains s = true)
    (hentry : s ∉ g.entries) : g.role s = .ok .exempt := by
  rw [role_eq_ok hs, if_neg hentry, if_pos ((mem_exempt_iff h).2 ⟨hexemption, hs, hentry⟩)]

/-- Under the first strategy no call site is guarded. -/
theorem role_ne_guarded_of_descendants (h : build p config c = .ok g)
    (hexemption : config.exemption = .descendants) : g.role s ≠ .ok .guarded := by
  intro hrole
  have hs := contains_of_role hrole
  by_cases hentry : s ∈ g.entries
  · rw [role_of_mem_entries h hentry] at hrole
    exact absurd (Except.ok.inj hrole) (by decide)
  · rw [role_of_descendants h hexemption hs hentry] at hrole
    exact absurd (Except.ok.inj hrole) (by decide)

/-- Under the second strategy all other nodes are guarded. -/
theorem role_of_disabled (h : build p config c = .ok g)
    (hexemption : config.exemption = .disabled) (hs : g.contains s = true)
    (hentry : s ∉ g.entries) : g.role s = .ok .guarded := by
  have hexempt : s ∉ g.exempt := fun hmem => by
    have := ((mem_exempt_iff h).1 hmem).1
    rw [hexemption] at this
    exact absurd this (by decide)
  rw [role_eq_ok hs, if_neg hentry, if_neg hexempt]

end CallPathGraph

end HeapDomains
