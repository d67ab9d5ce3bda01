import HeapDomains.Proofs.Allocator.Slot

/-!
# The placement of type tags

Which index a type tag gets, and how it is searched for. The search starts at the remainder of the
tag modulo the capacity and leaves a reserved index modulo the tag, not modulo the capacity, so a
small tag might keep it among the reserved indices for good. `SearchEnds` is the search as it runs
on words: it has a derivation only when the search comes to an end, and only when nothing overflows
on the way. It always does (`searchEnds_iff`), since the tags that leave a reserved index are
larger than all of these. `PlacesTags` collects what follows for the slots of allocations, and
`placesTags_of_reservedSlots_lt` says so of every capacity that leaves room beside the reserved
indices.
-/

namespace HeapDomains

variable {state : DomainState} {tag capacity steps index result result' : Nat}

/-! ## The search -/

/-- From an index on, the search for the index of a tag ends at a result. A round adds one to a
reserved index and takes the sum modulo the tag; the sum has to fit a word, and the tag must not be
zero. -/
inductive SearchEnds (tag : Nat) : Nat → Nat → Prop
  /-- The search ends at an index that is not reserved. -/
  | done {index : Nat} : reservedSlots ≤ index → SearchEnds tag index index
  /-- The search goes on from a reserved index. -/
  | round {index result : Nat} : index < reservedSlots → index + 1 < wordLimit → 0 < tag →
    SearchEnds tag ((index + 1) % tag) result → SearchEnds tag index result

/-- A search has one result at most. -/
theorem SearchEnds.unique (h : SearchEnds tag index result) (h' : SearchEnds tag index result') :
    result = result' := by
  induction h with
  | done hge =>
    cases h' with
    | done _ => rfl
    | round hlt _ _ _ => exact absurd hge (not_le.2 hlt)
  | round hlt _ _ _ ih =>
    cases h' with
    | done hge => exact absurd hge (not_le.2 hlt)
    | round _ _ _ hrest => exact ih hrest

/-- A search that may take as many steps as there are reserved indices left ends without overflow,
when the tag is too large to wrap around among them. -/
theorem searchEnds_skipReserved (htag : index < reservedSlots → reservedSlots < tag)
    (hsteps : reservedSlots ≤ index + steps) :
    SearchEnds tag index (skipReserved tag steps index) := by
  induction steps generalizing index with
  | zero => exact .done hsteps
  | succ steps ih =>
    rw [skipReserved]
    split
    · next hlt =>
      have hlarge : reservedSlots < tag := htag hlt
      have hfits : reservedSlots < wordLimit := by decide
      have hnext : (index + 1) % tag = index + 1 := Nat.mod_eq_of_lt (by omega)
      have hrest : SearchEnds tag (index + 1) (skipReserved tag steps (index + 1)) :=
        ih (fun _ => hlarge) (by omega)
      refine .round hlt (by omega) (by omega) ?_
      rw [hnext]
      exact hrest
    · next hge => exact .done (not_lt.1 hge)

/-- The search for the index of a tag that owns none ends at its index and nowhere else. -/
theorem searchEnds_iff (htag : 2 ≤ tag) (hcapacity : reservedSlots < capacity) :
    SearchEnds tag (tag % capacity) index ↔ index = placementIndex tag capacity := by
  have hends : SearchEnds tag (tag % capacity) (placementIndex tag capacity) :=
    searchEnds_skipReserved (reservedSlots_lt_of_mod_lt htag hcapacity) (Nat.le_add_left _ _)
  constructor
  · intro h
    exact h.unique hends
  · rintro rfl
    exact hends

/-! ## Slots -/

/-- A tag that owns no index selects its index, in the domain that the flag says. -/
theorem selectSlot_of_two_le {tag flag : Word} (htag : 2 ≤ tag) :
    selectSlot ⟨tag, flag⟩ capacity =
      ⟨if flag = 0 then .safe else .exposed, placementIndex tag.toNat capacity⟩ := by
  obtain ⟨hone, hzero⟩ := two_le_toNat_iff.1 (BitVec.le_def.1 htag)
  rw [selectSlot, if_neg hone, if_neg hzero]

/-- A state selects the slot of a reserved tag when that is its tag, and otherwise a slot that no
tag owns. -/
theorem selectSlot_cases (hcapacity : reservedSlots < capacity) (state : DomainState) :
    (state.typeTag = 1 ∧ selectSlot state capacity = ⟨.safe, 1⟩) ∨
    (state.typeTag = 0 ∧ selectSlot state capacity = ⟨.exposed, 0⟩) ∨
    (state.typeTag ≠ 1 ∧ state.typeTag ≠ 0 ∧
      reservedSlots ≤ (selectSlot state capacity).index) := by
  by_cases hone : state.typeTag = 1
  · exact Or.inl ⟨hone, by rw [selectSlot, if_pos hone]⟩
  · by_cases hzero : state.typeTag = 0
    · exact Or.inr (Or.inl ⟨hzero, by rw [selectSlot, if_neg hone, if_pos hzero]⟩)
    · have hindex : (selectSlot state capacity).index =
          placementIndex state.typeTag.toNat capacity := by
        rw [selectSlot, if_neg hone, if_neg hzero]
      refine Or.inr (Or.inr ⟨hone, hzero, ?_⟩)
      rw [hindex]
      exact reservedSlots_le_placementIndex (two_le_toNat_iff.2 ⟨hone, hzero⟩) hcapacity

/-- Only a reserved tag selects a slot with a reserved index, and only the slot that it owns. -/
theorem selectSlot_eq_iff_of_lt (hcapacity : reservedSlots < capacity) {slot : DomainSlot}
    (hslot : slot.index < reservedSlots) : selectSlot state capacity = slot ↔
      (state.typeTag = 1 ∧ slot = ⟨.safe, 1⟩) ∨ (state.typeTag = 0 ∧ slot = ⟨.exposed, 0⟩) := by
  rcases selectSlot_cases hcapacity state with
    ⟨htag, hselect⟩ | ⟨htag, hselect⟩ | ⟨hone, hzero, hindex⟩
  · rw [hselect, htag]
    simp [eq_comm]
  · rw [hselect, htag]
    simp [eq_comm]
  · constructor
    · rintro rfl
      exact absurd hindex (not_le.2 hslot)
    · rintro (⟨htag, -⟩ | ⟨htag, -⟩)
      · exact absurd htag hone
      · exact absurd htag hzero

/-! ## The rule -/

/-- How type tags are placed on the indices of two domains with `capacity` heaps each. -/
structure PlacesTags (capacity : Nat) : Prop where
  /-- The search for the index of a tag ends without overflow, and at one index only. -/
  searchEnds_iff : ∀ tag index, 2 ≤ tag →
    (SearchEnds tag (tag % capacity) index ↔ index = placementIndex tag capacity)
  /-- The index is the remainder of the tag, or the first one that is not reserved when the
  remainder is. -/
  placementIndex_eq : ∀ tag, 2 ≤ tag → placementIndex tag capacity =
    if reservedSlots ≤ tag % capacity then tag % capacity else reservedSlots
  /-- The index is not reserved, and is one of the domain. -/
  placementIndex_mem : ∀ tag, 2 ≤ tag →
    reservedSlots ≤ placementIndex tag capacity ∧ placementIndex tag capacity < capacity
  /-- Every slot that is selected exists. -/
  index_lt : ∀ state, (selectSlot state capacity).index < capacity
  /-- The first slot for unsafe code belongs to tag 0. -/
  eq_exposed_zero_iff : ∀ state,
    selectSlot state capacity = ⟨.exposed, 0⟩ ↔ state.typeTag = 0
  /-- The second slot out of the reach of unsafe code belongs to tag 1. -/
  eq_safe_one_iff : ∀ state, selectSlot state capacity = ⟨.safe, 1⟩ ↔ state.typeTag = 1
  /-- The other two slots with a reserved index are never selected. -/
  ne_unowned : ∀ state,
    selectSlot state capacity ≠ ⟨.exposed, 1⟩ ∧ selectSlot state capacity ≠ ⟨.safe, 0⟩
  /-- The flag chooses the domain of a tag that owns no index, and never the index. -/
  of_flag : ∀ tag flag : Word, 2 ≤ tag →
    (selectSlot ⟨tag, flag⟩ capacity).domain = (if flag = 0 then .safe else .exposed) ∧
      ∀ flag', (selectSlot ⟨tag, flag⟩ capacity).index = (selectSlot ⟨tag, flag'⟩ capacity).index

/-- Tags are placed by the rule on every capacity that is larger than the reserved indices. -/
theorem placesTags_of_reservedSlots_lt (hcapacity : reservedSlots < capacity) :
    PlacesTags capacity := by
  constructor
  · exact fun tag index htag => HeapDomains.searchEnds_iff htag hcapacity
  · intro tag htag
    rw [HeapDomains.placementIndex_eq htag hcapacity]
    split
    · next hge => exact max_eq_right hge
    · next hlt => exact max_eq_left (not_le.1 hlt).le
  · exact fun tag htag =>
      ⟨reservedSlots_le_placementIndex htag hcapacity, placementIndex_lt htag hcapacity⟩
  · exact selectSlot_index_lt hcapacity
  · intro state
    rw [selectSlot_eq_iff_of_lt hcapacity (by decide)]
    simp
  · intro state
    rw [selectSlot_eq_iff_of_lt hcapacity (by decide)]
    simp
  · intro state
    rw [Ne, Ne, selectSlot_eq_iff_of_lt hcapacity (by decide),
      selectSlot_eq_iff_of_lt hcapacity (by decide)]
    simp
  · intro tag flag htag
    refine ⟨?_, fun flag' => ?_⟩
    · rw [selectSlot_of_two_le htag]
    · rw [selectSlot_of_two_le htag, selectSlot_of_two_le htag]

/-- The smallest domains have one index beside the reserved ones. -/
theorem placesTags_three : reservedSlots < 3 ∧ PlacesTags 3 :=
  ⟨by decide, placesTags_of_reservedSlots_lt (by decide)⟩

end HeapDomains
