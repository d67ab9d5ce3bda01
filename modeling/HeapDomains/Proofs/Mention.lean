import HeapDomains.Proofs.Program
import Mathlib.Data.List.Induction
import Mathlib.Data.List.Nodup
import Mathlib.Data.List.Perm.Basic

/-!
# First mentions

A list without its repetitions keeps the first mention of each element. It only grows at its end
when the list does (`prefix_eraseDups`), and which elements it has does not depend on order or
repetition (`eraseDups_perm`). Flag bits are given out in this order: `Program.sitesOf` lists the
call sites of a function as they are first mentioned.
-/

namespace HeapDomains

variable {α : Type} [BEq α] [LawfulBEq α] {l m : List α} {a : α}

/-- An element put at the end is a first mention unless it is in the list already. -/
theorem eraseDups_concat :
    (l ++ [a]).eraseDups = if a ∈ l then l.eraseDups else l.eraseDups ++ [a] := by
  rw [List.eraseDups_append, List.removeAll]
  by_cases ha : a ∈ l
  · simp [ha]
  · simp [ha, List.eraseDups_cons]

/-- A list of first mentions repeats nothing. -/
theorem nodup_eraseDups : l.eraseDups.Nodup := by
  -- The elements come from the front to the end, so the list is taken apart at its end.
  induction l using List.reverseRecOn with
  | nil => simp
  | append_singleton l a ih =>
    rw [eraseDups_concat]
    split
    · exact ih
    · rename_i ha
      have hnew : a ∉ l.eraseDups := fun hmem => ha (List.mem_eraseDups.1 hmem)
      exact List.nodup_append.2 ⟨ih, List.nodup_singleton a, fun x hx y hy hxy =>
        hnew (List.mem_singleton.1 hy ▸ hxy ▸ hx)⟩

/-- First mentions stay where they are when a list is continued. -/
theorem prefix_eraseDups (h : l <+: m) : l.eraseDups <+: m.eraseDups := by
  obtain ⟨rest, rfl⟩ := h
  rw [List.eraseDups_append]
  exact List.prefix_append _ _

/-- Lists with the same elements have the same first mentions but for their order. -/
theorem eraseDups_perm (h : ∀ a, a ∈ l ↔ a ∈ m) : l.eraseDups.Perm m.eraseDups := by
  rw [List.perm_ext_iff_of_nodup nodup_eraseDups nodup_eraseDups]
  intro a
  rw [List.mem_eraseDups, List.mem_eraseDups, h a]

/-- What tells elements apart leaves their first mentions where they are. -/
theorem map_eraseDups {β : Type} [BEq β] [LawfulBEq β] {f : α → β} (hf : Function.Injective f) :
    (l.map f).eraseDups = l.eraseDups.map f := by
  induction l using List.reverseRecOn with
  | nil => simp
  | append_singleton l a ih =>
    have hmem : f a ∈ l.map f ↔ a ∈ l := List.mem_map_of_injective hf
    rw [List.map_append, List.map_singleton, eraseDups_concat, eraseDups_concat, ih]
    by_cases ha : a ∈ l
    · rw [if_pos (hmem.2 ha), if_pos ha]
    · rw [if_neg fun h => ha (hmem.1 h), if_neg ha, List.map_append, List.map_singleton]

/-! ## The call sites of a function -/

namespace Program

/-- Whether a call site belongs to a function. -/
def isMadeFrom (p : Program) (F : FunctionId) (s : InstId) : Bool :=
  match p.callSite s with
  | .ok site => site.function == F
  | .error _ => false

/-- The call sites of a function among those that are mentioned, in the order of their first
mention. -/
def sitesOf (p : Program) (F : FunctionId) (mentioned : List InstId) : List InstId :=
  (mentioned.filter (p.isMadeFrom F)).eraseDups

variable {p : Program} {F : FunctionId} {mentioned later : List InstId} {s : InstId}
  {site : CallSite}

/-- A call site belongs to its own function only. -/
theorem isMadeFrom_iff (h : p.callSite s = .ok site) :
    p.isMadeFrom F s = true ↔ F = site.function := by
  rw [isMadeFrom, h, beq_iff_eq, eq_comm]

/-- The call sites of a function are those that are mentioned and belong to it. -/
theorem mem_sitesOf : s ∈ p.sitesOf F mentioned ↔ s ∈ mentioned ∧ p.isMadeFrom F s = true := by
  rw [sitesOf, List.mem_eraseDups, List.mem_filter]

/-- A call site that is mentioned last is added to those of its function, unless it was mentioned
before. -/
theorem sitesOf_concat (h : p.callSite s = .ok site) :
    p.sitesOf F (mentioned ++ [s]) =
      if F = site.function ∧ s ∉ p.sitesOf F mentioned then p.sitesOf F mentioned ++ [s]
      else p.sitesOf F mentioned := by
  have hown : p.isMadeFrom F s = true ↔ F = site.function := isMadeFrom_iff h
  have hmentioned : (mentioned ++ [s]).filter (p.isMadeFrom F) =
      mentioned.filter (p.isMadeFrom F) ++ if p.isMadeFrom F s then [s] else [] := by
    rw [List.filter_append, List.filter_singleton, Bool.cond_eq_ite]
  by_cases hF : F = site.function
  · rw [sitesOf, hmentioned, if_pos (hown.2 hF), eraseDups_concat]
    simp only [hF, true_and, ite_not, sitesOf, List.mem_eraseDups]
  · rw [sitesOf, hmentioned, if_neg fun hmade => hF (hown.1 hmade), List.append_nil,
      if_neg fun hnew => hF hnew.1]
    rfl

/-- The call sites of a function keep their places when more is mentioned. -/
theorem prefix_sitesOf (h : mentioned <+: later) : p.sitesOf F mentioned <+: p.sitesOf F later :=
  prefix_eraseDups (h.filter _)

/-- How many call sites a function has depends on which are mentioned only. -/
theorem sitesOf_perm (h : ∀ s, s ∈ mentioned ↔ s ∈ later) :
    (p.sitesOf F mentioned).Perm (p.sitesOf F later) := by
  refine eraseDups_perm fun s => ?_
  rw [List.mem_filter, List.mem_filter, h s]

end Program

end HeapDomains
