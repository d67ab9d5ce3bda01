import Mathlib.Data.List.Find
import Mathlib.Data.List.Nodup
import Mathlib.Data.List.Perm.Basic
import Mathlib.Data.Set.Card

/-!
# Lists of items with different keys

Tables are lists of items that a key tells apart. Such a list finds the item with a key
(`find?_eq_some_iff_of_nodup`), and to take that item out is to take out those with its key
(`perm_cons_filter_ne`). It has as many items as there are things in it (`encard_setOf_mem`).
-/

namespace HeapDomains

/-- A search by a key that no two items share finds the item that has it. -/
theorem find?_eq_some_iff_of_nodup {α κ : Type} [BEq κ] [LawfulBEq κ] {key : α → κ}
    {items : List α} (hnodup : (items.map key).Nodup) {k : κ} {a : α} :
    items.find? (fun b => key b == k) = some a ↔ a ∈ items ∧ key a = k := by
  constructor
  · intro h
    exact ⟨List.mem_of_find?_eq_some h, by simpa using List.find?_some h⟩
  · rintro ⟨hmem, rfl⟩
    have hfound : (items.find? fun b => key b == key a).isSome = true := by
      rw [List.find?_isSome]
      exact ⟨a, hmem, beq_self_eq_true (key a)⟩
    obtain ⟨b, hb⟩ := Option.isSome_iff_exists.1 hfound
    have hkey : key b = key a := by simpa using List.find?_some hb
    rw [hb, List.inj_on_of_nodup_map hnodup (List.mem_of_find?_eq_some hb) hmem hkey]

/-- An element of a list with distinct keys stands in front of those with other keys, up to the
order. -/
theorem perm_cons_filter_ne {α κ : Type} [DecidableEq κ] {key : α → κ} {l : List α} {x : α}
    (hl : (l.map key).Nodup) (hx : x ∈ l) : l.Perm (x :: l.filter fun y => key y != key x) := by
  induction l with
  | nil => cases hx
  | cons y l ih =>
    obtain ⟨hy, hl⟩ := List.nodup_cons.1 hl
    rcases List.mem_cons.1 hx with rfl | hx
    · have hall : ∀ z ∈ l, (key z != key x) = true := fun z hz =>
        bne_iff_ne.2 fun hkey => hy (hkey ▸ List.mem_map_of_mem hz)
      rw [List.filter_cons_of_neg (by simp), List.filter_eq_self.2 hall]
    · have hne : key y ≠ key x := fun hkey => hy (hkey ▸ List.mem_map_of_mem hx)
      rw [List.filter_cons, if_pos (bne_iff_ne.2 hne)]
      exact ((ih hl hx).cons y).trans (List.Perm.swap x y _)

/-- Different things are as many as the list of them is long. -/
theorem encard_setOf_mem {α : Type} [DecidableEq α] {l : List α} (h : l.Nodup) :
    {a | a ∈ l}.encard = l.length := by
  rw [← List.coe_toFinset, Set.encard_coe_eq_coe_finsetCard, List.toFinset_card_of_nodup h]

end HeapDomains
