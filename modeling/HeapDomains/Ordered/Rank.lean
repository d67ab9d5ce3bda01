/-!
# Ranked types

A ranked type is ordered by a natural number that determines its elements. Every collection of this
library that shows its elements in ascending order is a list sorted by rank, so two collections
with the same elements are equal, and an order goal is an inequality of natural numbers.
-/

namespace HeapDomains

/-- A type whose elements are ordered by a natural number that determines them. -/
class Ranked (α : Type) where
  /-- The number an element is ordered by. -/
  rank : α → Nat
  /-- Elements of equal rank are equal. -/
  rank_inj : ∀ a b : α, rank a = rank b → a = b

export Ranked (rank)

/-- Two elements have the same rank exactly when they are equal. -/
@[simp] theorem rank_eq_iff {α : Type} [Ranked α] {a b : α} : rank a = rank b ↔ a = b :=
  ⟨Ranked.rank_inj a b, fun h => h ▸ rfl⟩

instance : Ranked Nat where
  rank := id
  rank_inj _ _ h := h

end HeapDomains
