import HeapDomains.Proofs.CallPath.Exempt
import HeapDomains.Proofs.Flag.Planner

/-!
# Calls by role

What a call does to the flag in a graph that is built: an entry raises its mask whatever the flag
was; any other call site with a node passes the flag on by its bit under one strategy, and leaves it
alone under the other. `Covered` says of a stack of call sites that going outwards along edges from
the innermost one leads to an entry on the stack. When call sites are guarded, a covered stack hands
the flag from the entry inwards (`Handed`): each call site on the way finds its bit in the mask of
the next one.
-/

namespace HeapDomains

namespace CallPathGraph

variable {p : Program} {config : PassConfig} {c : Classification} {g : CallPathGraph}
  {site outer : CallSite} {entry flag : Word} {s : InstId}

/-- An entry raises its mask. -/
theorem flagBefore_of_mem_entries (h : build p config c = .ok g) (hs : site.id ∈ g.entries) :
    g.flagBefore site entry flag = g.argMask site := by
  rw [flagBefore, role_of_mem_entries h hs]

/-- A guarded call site raises its mask when its bit is set in the flag its frame was entered with,
and clears the flag otherwise. -/
theorem flagBefore_of_disabled (h : build p config c = .ok g)
    (hexemption : config.exemption = .disabled) (hs : g.contains site.id = true)
    (hentry : site.id ∉ g.entries) :
    g.flagBefore site entry flag = if entry.has (g.bitOf site) then g.argMask site else 0 := by
  rw [flagBefore, role_of_disabled h hexemption hs hentry]

/-- A call that is neither an entry nor guarded leaves the flag alone. -/
theorem flagBefore_of_unguarded (h : build p config c = .ok g) (hentry : site.id ∉ g.entries)
    (hguarded : g.role site.id ≠ .ok .guarded) : g.flagBefore site entry flag = flag :=
  flagBefore_eq_self (fun hrole => hentry ((role_eq_entry_iff h).1 hrole)) hguarded

/-- Where call sites are exempt, all but entries leave the flag alone before a call. -/
theorem flagBefore_of_descendants (h : build p config c = .ok g)
    (hexemption : config.exemption = .descendants) (hentry : site.id ∉ g.entries) :
    g.flagBefore site entry flag = flag :=
  flagBefore_of_unguarded h hentry (role_ne_guarded_of_descendants h hexemption)

/-- Where call sites are exempt, no call clears the flag afterwards. -/
theorem flagAfter_of_descendants (h : build p config c = .ok g)
    (hexemption : config.exemption = .descendants) : g.flagAfter site flag = flag :=
  flagAfter_eq_self (role_ne_guarded_of_descendants h hexemption)

/-- Clearing the flag or leaving it alone does not raise it. -/
theorem flagAfter_zero : g.flagAfter site 0 = 0 := by
  by_cases hguarded : g.role site.id = .ok .guarded
  · exact flagAfter_of_guarded hguarded
  · exact flagAfter_eq_self hguarded

/-- The bit of a call site is one that words have. -/
theorem bit?_lt_of_build (hvalid : config.validated = .ok config) (h : build p config c = .ok g)
    {n : Nat} (hn : g.bit? site = some n) : n < 64 :=
  ((registry_of_build h).bit?_lt hn).trans_le (PassConfig.maxFlagBits_of_validated hvalid).2

/-- The bit of a call site is set in an argument mask when it is among the argument bits. -/
theorem has_bitOf_argMask_iff (hvalid : config.validated = .ok config)
    (h : build p config c = .ok g) (houter : p.callSite outer.id = .ok outer) {n : Nat}
    (hn : g.bit? site = some n) :
    (g.argMask outer).has (g.bitOf site) = true ↔ n ∈ g.argBits outer := by
  have hbitOf : g.bitOf site = n := by
    rw [bitOf, ← bit?, hn, Option.getD_some]
  rw [hbitOf, Word.has_of_lt (bit?_lt_of_build hvalid h hn), getLsbD_argMask hvalid h houter]

/-- The bit of a call site is set in the mask of every call site one level further out. -/
theorem has_argMask_of_outward (hvalid : config.validated = .ok config)
    (h : build p config c = .ok g) (hsite : p.callSite site.id = .ok site)
    (houter : p.callSite outer.id = .ok outer) (hedge : g.Outward site.id outer.id) :
    (g.argMask outer).has (g.bitOf site) = true := by
  have hmirror := argBitsMirror_of_build h
  have hnode := (hmirror.contains_of_outward hedge).1
  obtain ⟨n, hn⟩ := Option.isSome_iff_exists.1
    (((registry_of_build h).contains_iff_isSome_bit? hsite).1 hnode)
  rw [has_bitOf_argMask_iff hvalid h houter hn, hmirror.mem_argBits_iff houter]
  exact Or.inl ⟨site.id, site, hedge, hsite, hn⟩

/-- A call site that is called from a frame entered with the mask of an outer neighbour raises its
own mask. -/
theorem flagBefore_of_outward (hvalid : config.validated = .ok config)
    (h : build p config c = .ok g) (hexemption : config.exemption = .disabled)
    (hsite : p.callSite site.id = .ok site) (houter : p.callSite outer.id = .ok outer)
    (hedge : g.Outward site.id outer.id) :
    g.flagBefore site (g.argMask outer) flag = g.argMask site := by
  by_cases hentry : site.id ∈ g.entries
  · exact flagBefore_of_mem_entries h hentry
  · have hnode := ((argBitsMirror_of_build h).contains_of_outward hedge).1
    rw [flagBefore_of_disabled h hexemption hnode hentry,
      if_pos (has_argMask_of_outward hvalid h hsite houter hedge)]

/-! ## Covered stacks -/

/-- Going outwards along edges, one call site of a stack after the other, leads from the innermost
one to an entry. -/
inductive Covered (g : CallPathGraph) : List InstId → Prop
  /-- The innermost call site is an entry. -/
  | entry {s : InstId} {rest : List InstId} : s ∈ g.entries → Covered g (s :: rest)
  /-- An edge leads to the next call site, from which an entry is reached. -/
  | outward {s o : InstId} {rest : List InstId} :
    g.Outward s o → Covered g (o :: rest) → Covered g (s :: o :: rest)

variable {stack inner rest : List InstId} {e : InstId}

/-- A stack that starts with a path along edges to an entry is covered. -/
theorem covered_of_isChain (hchain : (inner ++ [e]).IsChain g.Outward) (he : e ∈ g.entries) :
    g.Covered (inner ++ e :: rest) := by
  induction inner with
  | nil => exact .entry he
  | cons first inner ih =>
    cases inner with
    | nil => exact .outward (List.isChain_cons_cons.1 hchain).1 (ih (.singleton e))
    | cons second inner =>
      obtain ⟨hedge, hchain⟩ := List.isChain_cons_cons.1 hchain
      exact .outward hedge (ih hchain)

/-- On a covered stack edges lead to the innermost entry. -/
theorem covered_iff : g.Covered stack ↔ ∃ inner e outer, stack = inner ++ e :: outer ∧
    e ∈ g.entries ∧ (∀ s ∈ inner, s ∉ g.entries) ∧ (inner ++ [e]).IsChain g.Outward := by
  constructor
  · intro h
    induction h with
    | @entry s rest hs => exact ⟨[], s, rest, rfl, hs, by simp, .singleton s⟩
    | @outward s o rest hedge _ ih =>
      obtain ⟨inner, e, outer, hstack, he, hinner, hchain⟩ := ih
      -- An entry further in takes the place of the one that was found.
      by_cases hs : s ∈ g.entries
      · exact ⟨[], s, o :: rest, rfl, hs, by simp, .singleton s⟩
      · refine ⟨s :: inner, e, outer, by rw [hstack]; rfl, he, ?_, ?_⟩
        · intro x hx
          rcases List.mem_cons.1 hx with rfl | hx
          · exact hs
          · exact hinner x hx
        · cases inner with
          | nil =>
            obtain ⟨rfl, -⟩ := List.cons.inj hstack
            exact .cons_cons hedge hchain
          | cons second inner =>
            obtain ⟨rfl, -⟩ := List.cons.inj hstack
            exact .cons_cons hedge hchain
  · rintro ⟨inner, e, outer, rfl, he, -, hchain⟩
    exact covered_of_isChain hchain he

/-- A covered stack has an entry on it. -/
theorem Covered.exists_mem_entries (h : g.Covered stack) : ∃ e ∈ stack, e ∈ g.entries := by
  induction h with
  | @entry s rest hs => exact ⟨s, List.mem_cons_self, hs⟩
  | outward _ _ ih =>
    obtain ⟨e, he, hentry⟩ := ih
    exact ⟨e, List.mem_cons_of_mem _ he, hentry⟩

/-- The innermost call site of a covered stack has a node. -/
theorem Covered.contains (h : build p config c = .ok g) (hcovered : g.Covered (s :: rest)) :
    g.contains s = true := by
  cases hcovered with
  | entry hs => exact contains_of_mem_entries h hs
  | outward hedge _ => exact ((argBitsMirror_of_build h).contains_of_outward hedge).1

/-- A frame on a covered stack has been entered with the mask of the innermost call site. -/
def Handed (g : CallPathGraph) (p : Program) (sites : List InstId) (entry : Word) : Prop :=
  g.Covered sites → ∃ site, p.callSite site.id = .ok site ∧ sites.head? = some site.id ∧
    entry = g.argMask site

/-- A call hands on what its frame was handed. -/
theorem handed_flagBefore (hvalid : config.validated = .ok config) (h : build p config c = .ok g)
    (hexemption : config.exemption = .disabled) (hsite : p.callSite site.id = .ok site)
    (hentry : g.Handed p stack entry) :
    g.Handed p (site.id :: stack) (g.flagBefore site entry flag) := by
  intro hcovered
  refine ⟨site, hsite, rfl, ?_⟩
  cases hcovered with
  | entry hs => exact flagBefore_of_mem_entries h hs
  | outward hedge houter =>
    -- The rest of the stack is covered too, so the frame was handed the mask of the call below.
    obtain ⟨outer, hcallSite, hhead, rfl⟩ := hentry houter
    obtain rfl := Option.some.inj hhead
    exact flagBefore_of_outward hvalid h hexemption hsite hcallSite hedge

end CallPathGraph

end HeapDomains
