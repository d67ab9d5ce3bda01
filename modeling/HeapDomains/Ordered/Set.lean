import HeapDomains.Ordered.Rank

/-!
# Ordered sets

A finite set of ranked elements, kept as the list of its elements in ascending order. `mem_insert`
and `mem_ofList` say what the operations do to membership, and `ext` that membership determines the
set.
-/

namespace HeapDomains

/-- A finite set of ranked elements, shown in ascending order. -/
structure OrderedSet (α : Type) [Ranked α] where
  /-- The elements in ascending order. -/
  toList : List α
  /-- Each element ranks below all that follow it. -/
  sorted : toList.Pairwise (fun a b => rank a < rank b)

namespace OrderedSet

variable {α : Type} [Ranked α]

/-- A sorted list with `a` put in its place, unchanged when `a` is already in it. -/
def insertSorted (a : α) : List α → List α
  | [] => [a]
  | b :: rest =>
    if rank a < rank b then a :: b :: rest
    else if rank b < rank a then b :: insertSorted a rest
    else b :: rest

/-- An element of the longer list is the new one or was there before. -/
theorem mem_insertSorted {a x : α} {l : List α} : x ∈ insertSorted a l ↔ x = a ∨ x ∈ l := by
  induction l with
  | nil => simp [insertSorted]
  | cons b rest ih =>
    simp only [insertSorted]
    split
    · simp
    · split
      · simp only [List.mem_cons, ih]
        constructor
        · rintro (h | h | h) <;> simp [h]
        · rintro (h | h | h) <;> simp [h]
      · have hab : a = b := Ranked.rank_inj a b (by omega)
        simp [hab]

/-- Putting an element in its place keeps a list sorted. -/
theorem pairwise_insertSorted {a : α} {l : List α}
    (h : l.Pairwise (fun a b => rank a < rank b)) :
    (insertSorted a l).Pairwise (fun a b => rank a < rank b) := by
  induction l with
  | nil => simp [insertSorted]
  | cons b rest ih =>
    obtain ⟨hb, hrest⟩ := List.pairwise_cons.1 h
    simp only [insertSorted]
    split
    · rename_i hab
      refine List.pairwise_cons.2 ⟨fun x hx => ?_, h⟩
      rcases List.mem_cons.1 hx with rfl | hx
      · exact hab
      · have := hb x hx
        omega
    · split
      · rename_i hba
        refine List.pairwise_cons.2 ⟨fun x hx => ?_, ih hrest⟩
        rcases mem_insertSorted.1 hx with rfl | hx
        · exact hba
        · exact hb x hx
      · exact h

/-- The set without elements. -/
def empty : OrderedSet α := ⟨[], List.Pairwise.nil⟩

instance : EmptyCollection (OrderedSet α) := ⟨empty⟩

instance : Inhabited (OrderedSet α) := ⟨empty⟩

/-- The set with `a` added. -/
def insert (s : OrderedSet α) (a : α) : OrderedSet α :=
  ⟨insertSorted a s.toList, pairwise_insertSorted s.sorted⟩

/-- The set of the elements of a list. -/
def ofList (l : List α) : OrderedSet α := l.foldl insert empty

/-- All elements of two sets. -/
def union (s t : OrderedSet α) : OrderedSet α := t.toList.foldl insert s

/-- The elements that pass a test. -/
def filter (p : α → Bool) (s : OrderedSet α) : OrderedSet α :=
  ⟨s.toList.filter p, s.sorted.filter p⟩

/-- The number of elements. -/
def size (s : OrderedSet α) : Nat := s.toList.length

/-- Whether the set has no element. -/
def isEmpty (s : OrderedSet α) : Bool := s.toList.isEmpty

/-- Whether an element is in the set. -/
def contains (s : OrderedSet α) (a : α) : Bool := s.toList.any (fun b => rank b == rank a)

instance : Membership α (OrderedSet α) := ⟨fun s a => a ∈ s.toList⟩

/-- Membership in the set is membership in its list. -/
theorem mem_def {s : OrderedSet α} {a : α} : a ∈ s ↔ a ∈ s.toList := Iff.rfl

@[simp] theorem contains_iff {s : OrderedSet α} {a : α} : s.contains a = true ↔ a ∈ s := by
  simp [contains, mem_def]

instance (s : OrderedSet α) (a : α) : Decidable (a ∈ s) :=
  decidable_of_iff (s.contains a = true) contains_iff

@[simp] theorem not_mem_empty (a : α) : a ∉ (empty : OrderedSet α) := by
  simp [mem_def, empty]

@[simp] theorem mem_insert {s : OrderedSet α} {a x : α} : x ∈ s.insert a ↔ x = a ∨ x ∈ s :=
  mem_insertSorted

@[simp] theorem mem_filter {s : OrderedSet α} {p : α → Bool} {x : α} :
    x ∈ s.filter p ↔ x ∈ s ∧ p x = true := by
  simp [mem_def, filter]

/-- Adding the elements of a list one by one adds exactly those elements. -/
theorem mem_foldl_insert {l : List α} {s : OrderedSet α} {x : α} :
    x ∈ l.foldl insert s ↔ x ∈ s ∨ x ∈ l := by
  induction l generalizing s with
  | nil => simp
  | cons a rest ih =>
    simp only [List.foldl_cons, ih, mem_insert, List.mem_cons]
    constructor
    · rintro ((h | h) | h) <;> simp [h]
    · rintro (h | h | h) <;> simp [h]

@[simp] theorem mem_ofList {l : List α} {x : α} : x ∈ ofList l ↔ x ∈ l := by
  simp [ofList, mem_foldl_insert]

@[simp] theorem mem_union {s t : OrderedSet α} {x : α} : x ∈ s.union t ↔ x ∈ s ∨ x ∈ t :=
  mem_foldl_insert

/-- Two sorted lists with the same elements are equal. -/
theorem eq_of_sorted_of_mem_iff {l m : List α} (hl : l.Pairwise (fun a b => rank a < rank b))
    (hm : m.Pairwise (fun a b => rank a < rank b)) (h : ∀ x, x ∈ l ↔ x ∈ m) : l = m := by
  induction l generalizing m with
  | nil =>
    cases m with
    | nil => rfl
    | cons b m => exact absurd ((h b).2 (by simp)) (by simp)
  | cons a l ih =>
    cases m with
    | nil => exact absurd ((h a).1 (by simp)) (by simp)
    | cons b m =>
      obtain ⟨ha, hl'⟩ := List.pairwise_cons.1 hl
      obtain ⟨hb, hm'⟩ := List.pairwise_cons.1 hm
      have hab : a = b := by
        rcases List.mem_cons.1 ((h a).1 (by simp)) with e | e
        · exact e
        · rcases List.mem_cons.1 ((h b).2 (by simp)) with e' | e'
          · exact e'.symm
          · have := hb a e
            have := ha b e'
            omega
      subst hab
      suffices h' : ∀ x, x ∈ l ↔ x ∈ m by rw [ih hl' hm' h']
      intro x
      have hx := h x
      simp only [List.mem_cons] at hx
      constructor
      · intro hxl
        rcases hx.1 (Or.inr hxl) with e | e
        · subst e
          exact absurd (ha x hxl) (Nat.lt_irrefl _)
        · exact e
      · intro hxm
        rcases hx.2 (Or.inr hxm) with e | e
        · subst e
          exact absurd (hb x hxm) (Nat.lt_irrefl _)
        · exact e

/-- Sets with the same elements are equal. -/
theorem ext {s t : OrderedSet α} (h : ∀ x, x ∈ s ↔ x ∈ t) : s = t := by
  obtain ⟨l, hl⟩ := s
  obtain ⟨m, hm⟩ := t
  obtain rfl : l = m := eq_of_sorted_of_mem_iff hl hm h
  rfl

instance [DecidableEq α] : DecidableEq (OrderedSet α) := fun s t =>
  decidable_of_iff (s.toList = t.toList)
    ⟨fun h => by cases s; cases t; cases h; rfl, fun h => h ▸ rfl⟩

end OrderedSet

end HeapDomains
