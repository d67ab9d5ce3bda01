import HeapDomains.Ordered.Map
import Mathlib.Data.List.Perm.Subperm

/-!
# Sizes and values of ordered collections

A set that is part of another and no smaller is the other one, so a set that grows within bounds
stops growing. The values of a map are what its lookups find, so lookups determine the map, and maps
with related lookups have related values. A map that is made from the keys at which a function is
defined finds what the function says.
-/

namespace HeapDomains

/-- A set lists no element twice. -/
theorem OrderedSet.nodup {α : Type} [Ranked α] (s : OrderedSet α) : s.toList.Nodup := by
  refine s.sorted.imp fun {a b} hlt hab => ?_
  rw [hab] at hlt
  exact Nat.lt_irrefl _ hlt

/-- A set without repetition that has as many elements as a list holds all of the list. -/
theorem OrderedSet.mem_of_length_le_size {α : Type} [Ranked α] {s : OrderedSet α} {l : List α}
    (hsub : ∀ x ∈ s, x ∈ l) (hle : l.length ≤ s.size) {x : α} (hx : x ∈ l) : x ∈ s := by
  have hsubperm : s.toList.Subperm l := List.subperm_of_subset s.nodup hsub
  exact (hsubperm.perm_of_length_le hle).mem_iff.2 hx

/-- A set that is part of another and has as many elements is the other. -/
theorem OrderedSet.eq_of_subset_of_size_le {α : Type} [Ranked α] {s t : OrderedSet α}
    (hsub : ∀ x ∈ s, x ∈ t) (hle : t.size ≤ s.size) : s = t :=
  OrderedSet.ext fun x => ⟨hsub x, fun hx => OrderedSet.mem_of_length_le_size hsub hle hx⟩

/-- In a sorted list of entries the value of an entry is found at its key. -/
theorem OrderedMap.find?_of_mem {κ ν : Type} [Ranked κ] {l : List (κ × ν)}
    (hsorted : l.Pairwise (fun a b => rank a.1 < rank b.1)) {e : κ × ν} (he : e ∈ l) :
    OrderedMap.find? e.1 l = some e.2 := by
  induction l with
  | nil => simp at he
  | cons first rest ih =>
    obtain ⟨hfirst, hrest⟩ := List.pairwise_cons.1 hsorted
    rcases List.mem_cons.1 he with rfl | he
    · rw [OrderedMap.find?, if_pos rfl]
    -- The keys of later entries are larger than the first one, so the search goes on.
    · have hlt := hfirst e he
      rw [OrderedMap.find?, if_neg (by omega)]
      exact ih hrest he

/-- The values of a map are what is found at its keys. -/
theorem OrderedMap.mem_values_iff {κ ν : Type} [Ranked κ] {m : OrderedMap κ ν} {v : ν} :
    v ∈ m.values ↔ ∃ k, m.get? k = some v := by
  constructor
  · intro hv
    obtain ⟨e, he, rfl⟩ := List.mem_map.1 hv
    exact ⟨e.1, OrderedMap.find?_of_mem m.sorted he⟩
  · rintro ⟨k, hk⟩
    obtain ⟨l, hl⟩ := m
    change OrderedMap.find? k l = some v at hk
    change v ∈ l.map Prod.snd
    clear hl
    induction l with
    | nil => simp [OrderedMap.find?] at hk
    | cons first rest ih =>
      rw [OrderedMap.find?] at hk
      split at hk
      · obtain rfl := Option.some.inj hk
        simp
      · exact List.mem_cons_of_mem _ (ih hk)

/-- The entries of a map are its keys with what is found at them. -/
theorem OrderedMap.entries_eq_filterMap {κ ν : Type} [Ranked κ] (m : OrderedMap κ ν) :
    m.entries = m.keys.filterMap fun k => (m.get? k).map fun v => (k, v) := by
  have hentry : ∀ e ∈ m.entries, (m.get? e.1).map (fun v => (e.1, v)) = some e := by
    intro e he
    rw [get?, find?_of_mem m.sorted he]
    rfl
  rw [keys, List.filterMap_map]
  exact ((List.filterMap_congr hentry).trans List.filterMap_some).symm

/-- The values of a map are what is found at its keys, in their order. -/
theorem OrderedMap.values_eq_filterMap {κ ν : Type} [Ranked κ] (m : OrderedMap κ ν) :
    m.values = m.keys.filterMap m.get? := by
  have hentry : ∀ e ∈ m.entries, m.get? e.1 = some e.2 := fun e he => find?_of_mem m.sorted he
  rw [keys, List.filterMap_map, values, ← List.filterMap_eq_map]
  exact (List.filterMap_congr hentry).symm

/-- Maps with values at the same keys have the same keys. -/
theorem OrderedMap.keys_eq {κ ν ν' : Type} [Ranked κ] {m : OrderedMap κ ν} {m' : OrderedMap κ ν'}
    (h : ∀ k, (m.get? k).isSome = (m'.get? k).isSome) : m.keys = m'.keys := by
  have hsorted : ∀ {ν : Type} (m : OrderedMap κ ν), m.keys.Pairwise (fun a b => rank a < rank b) :=
    fun m => List.pairwise_map.2 m.sorted
  refine OrderedSet.eq_of_sorted_of_mem_iff (hsorted m) (hsorted m') fun k => ?_
  rw [OrderedMap.mem_keys_iff, OrderedMap.mem_keys_iff, h k]

/-- Maps with the same lookups are equal. -/
theorem OrderedMap.ext {κ ν : Type} [Ranked κ] {m m' : OrderedMap κ ν}
    (h : ∀ k, m.get? k = m'.get? k) : m = m' := by
  have hkeys : m.keys = m'.keys := OrderedMap.keys_eq fun k => by rw [h k]
  have hentries : m.entries = m'.entries := by
    rw [m.entries_eq_filterMap, m'.entries_eq_filterMap, hkeys]
    simp only [h]
  obtain ⟨l, hl⟩ := m
  obtain ⟨l', hl'⟩ := m'
  obtain rfl : l = l' := hentries
  rfl

/-- Maps to sets that are not empty are equal when they have the same elements at the same keys. -/
theorem OrderedMap.ext_of_mem {κ α : Type} [Ranked κ] [Ranked α]
    {m m' : OrderedMap κ (OrderedSet α)} (hm : ∀ k s, m.get? k = some s → ∃ a, a ∈ s)
    (hm' : ∀ k s, m'.get? k = some s → ∃ a, a ∈ s)
    (h : ∀ k a, (∃ s, m.get? k = some s ∧ a ∈ s) ↔ ∃ s, m'.get? k = some s ∧ a ∈ s) : m = m' := by
  refine OrderedMap.ext fun k => ?_
  cases hk : m.get? k with
  | none =>
    cases hk' : m'.get? k with
    | none => rfl
    | some s' =>
      obtain ⟨a, ha⟩ := hm' k s' hk'
      obtain ⟨s, hs, -⟩ := (h k a).2 ⟨s', hk', ha⟩
      rw [hk] at hs
      simp at hs
  | some s =>
    obtain ⟨a, ha⟩ := hm k s hk
    obtain ⟨s', hk', -⟩ := (h k a).1 ⟨s, hk, ha⟩
    -- Both maps have a set at the key, and it has the same elements.
    rw [hk']
    refine congrArg some (OrderedSet.ext fun a => ?_)
    have hmem := h k a
    rw [hk, hk'] at hmem
    simpa using hmem

/-- Maps with related lookups have related values. -/
theorem OrderedMap.forall₂_values {κ ν ν' : Type} [Ranked κ] {R : ν → ν' → Prop}
    {m : OrderedMap κ ν} {m' : OrderedMap κ ν'}
    (h : ∀ k, Option.Rel R (m.get? k) (m'.get? k)) : List.Forall₂ R m.values m'.values := by
  have hsome : ∀ {a : Option ν} {b : Option ν'}, Option.Rel R a b → a.isSome = b.isSome := by
    intro a b hab
    cases hab with
    | some _ => rfl
    | none => rfl
  have hkeys : m.keys = m'.keys := OrderedMap.keys_eq fun k => hsome (h k)
  rw [m.values_eq_filterMap, m'.values_eq_filterMap, hkeys]
  induction m'.keys with
  | nil => exact .nil
  | cons k rest ih =>
    have hk := h k
    rw [List.filterMap_cons, List.filterMap_cons]
    generalize m.get? k = found at hk
    generalize m'.get? k = found' at hk
    cases hk with
    | some hrel => exact .cons hrel ih
    | none => exact ih

/-- A map that is made from some keys with their values finds these values at these keys. -/
theorem OrderedMap.get?_ofList_filterMap {κ ν : Type} [Ranked κ] {l : List κ} {f : κ → Option ν}
    {k : κ} {v : ν} : (ofList (l.filterMap fun k => (f k).map fun v => (k, v))).get? k = some v ↔
      k ∈ l ∧ f k = some v := by
  -- Entries are added to the map so far, so the map the list starts from varies.
  suffices hgen : ∀ m : OrderedMap κ ν, ((l.filterMap fun k => (f k).map fun v => (k, v)).foldl
      (fun m e => m.insert e.1 e.2) m).get? k = some v ↔
        (k ∈ l ∧ f k = some v) ∨ (¬ (k ∈ l ∧ (f k).isSome = true) ∧ m.get? k = some v) by
    rw [ofList, hgen]
    simp
  induction l with
  | nil => simp
  | cons first rest ih =>
    intro m
    cases hf : f first with
    | none =>
      rw [List.filterMap_cons_none (by rw [hf]; rfl), ih]
      by_cases hk : k = first
      · simp [hk, hf]
      · simp [hk]
    | some w =>
      rw [List.filterMap_cons_some (by rw [hf]; rfl), List.foldl_cons, ih, get?_insert]
      by_cases hk : k = first
      · subst hk
        rw [if_pos rfl]
        by_cases hrest : k ∈ rest
        · simp [hrest, hf]
        · simp [hrest, hf]
      · rw [if_neg fun h => hk (rank_eq_iff.1 h)]
        simp [hk]

/-- A map is made of its entries. -/
theorem OrderedMap.ofList_entries {κ ν : Type} [Ranked κ] (m : OrderedMap κ ν) :
    ofList m.entries = m := by
  refine ext fun k => Option.ext fun v => ?_
  rw [m.entries_eq_filterMap, get?_ofList_filterMap, mem_keys_iff]
  exact and_iff_right_of_imp fun hv => Option.isSome_of_eq_some hv

end HeapDomains
