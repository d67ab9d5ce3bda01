import HeapDomains.Proofs.Classification
import HeapDomains.Proofs.Ordered

/-!
# Stack slots that have to move

Which stack slots a classification moves, and for which reasons: a tainted slot that the
smart-pointer interface does not own, and a slot that a pointer across the boundary may point to
(`hasReason_ofFacts`). Each step adds reasons and none takes one back, so what a run of steps adds
is what some step adds. Which pointers cross the boundary does not depend on the facts at all.
-/

namespace HeapDomains

/-- What every step of a loop adds to a property is what some step adds. -/
theorem foldl_iff {α β : Type} {f : β → α → β} {P : β → Prop} {Q : α → Prop} {items : List α}
    {b : β} (h : ∀ b a, P (f b a) ↔ Q a ∨ P b) :
    P (items.foldl f b) ↔ (∃ a ∈ items, Q a) ∨ P b := by
  induction items generalizing b with
  | nil => simp
  | cons a rest ih => rw [List.foldl_cons, ih, h, List.exists_mem_cons_iff, or_left_comm, or_assoc]

/-- What every step of a loop that may end early adds to a property is what some step adds. -/
theorem foldlM_iff {ε α β : Type} {f : β → α → Except ε β} {P : β → Prop} {Q : α → Prop}
    {items : List α} {b b' : β} (hstep : ∀ b a b', f b a = .ok b' → (P b' ↔ Q a ∨ P b))
    (h : items.foldlM f b = .ok b') : P b' ↔ (∃ a ∈ items, Q a) ∨ P b := by
  refine foldlM_invariant (P := fun done b' => P b' ↔ (∃ a ∈ done, Q a) ∨ P b) (by simp) ?_ h
  intro done a mid b' hmid ha
  rw [hstep mid a b' ha, hmid, ← or_assoc, or_comm (a := Q a)]
  simp [or_and_right, exists_or]

/-- A stack slot that the smart-pointer interface does not own. -/
def Program.IsMovable (p : Program) (alloca : InstId) : Prop :=
  ∃ inst, p.instruction alloca = .ok inst ∧ inst.isAlloca = true ∧
    ¬ inst.hasMark .smartPointer = true

namespace Classification

/-- A stack slot has to move for a reason. -/
def HasReason (c : Classification) (alloca : InstId) (reason : RelocationReason) : Prop :=
  ∃ reasons, c.reasons? alloca = some reasons ∧ reason ∈ reasons

/-- Every stack slot that has to move does so for a reason. -/
def AllHaveReasons (c : Classification) : Prop :=
  ∀ alloca reasons, c.reasons? alloca = some reasons → ∃ reason, reason ∈ reasons

variable {p : Program} {facts : Facts} {c c' : Classification} {alloca x : InstId}
  {reason q : RelocationReason} {value : PointerValue} {object : MemoryObject} {v : ValueId}

/-- A reason is there after adding one if it is the new one or was there before. -/
theorem hasReason_addRelocation : (c.addRelocation alloca reason).HasReason x q ↔
    (x = alloca ∧ q = reason) ∨ c.HasReason x q := by
  unfold HasReason reasons? addRelocation
  rw [OrderedMap.get?_modify]
  by_cases hx : x = alloca
  · subst hx
    rw [if_pos rfl]
    cases c.relocations.get? x with
    | none => simp
    | some old => simp
  · rw [if_neg fun hrank => hx (rank_eq_iff.1 hrank)]
    simp [hx]

/-- Adding a reason leaves no stack slot without one. -/
theorem AllHaveReasons.addRelocation (h : c.AllHaveReasons) :
    (c.addRelocation alloca reason).AllHaveReasons := by
  intro x reasons hreasons
  unfold reasons? Classification.addRelocation at hreasons
  rw [OrderedMap.get?_modify] at hreasons
  split at hreasons
  · obtain rfl := Option.some.inj hreasons
    exact ⟨reason, OrderedSet.mem_insert.2 (Or.inl rfl)⟩
  · exact h x reasons hreasons

/-! ## Steps -/

/-- A reported allocation moves nothing. -/
theorem classifyAllocation_keeps {report : ReachableAllocation}
    (h : classifyAllocation p c report = .ok c') :
    c'.relocations = c.relocations ∧ c'.boundaryPointers = c.boundaryPointers := by
  unfold classifyAllocation at h
  split at h
  · simp at h
  · obtain rfl := Except.ok.inj h
    exact ⟨rfl, rfl⟩

/-- A tainted stack slot is moved unless the smart-pointer interface owns it. -/
theorem classifyTainted_ok (h : classifyTainted p c alloca = .ok c') :
    (p.IsMovable alloca ∧ c' = c.addRelocation alloca .taintedStackObject) ∨
      (¬ p.IsMovable alloca ∧ c' = c) := by
  unfold classifyTainted at h
  split at h
  · simp at h
  · rename_i inst hinst
    split at h
    · rename_i hmovable
      exact Or.inl ⟨⟨inst, hinst, hmovable⟩, (Except.ok.inj h).symm⟩
    · rename_i hmovable
      refine Or.inr ⟨?_, (Except.ok.inj h).symm⟩
      rintro ⟨found, hfound, hspec⟩
      rw [← Except.ok.inj (hinst.symm.trans hfound)] at hspec
      exact hmovable hspec

/-- What a tainted stack slot adds. -/
theorem hasReason_classifyTainted (h : classifyTainted p c alloca = .ok c') :
    c'.HasReason x q ↔
      (x = alloca ∧ q = .taintedStackObject ∧ p.IsMovable alloca) ∨ c.HasReason x q := by
  rcases classifyTainted_ok h with ⟨hmovable, rfl⟩ | ⟨hmovable, rfl⟩
  · rw [hasReason_addRelocation]
    simp [hmovable]
  · simp [hmovable]

/-- The stack slot of an object is moved unless the smart-pointer interface owns it. -/
theorem hasReason_classifyObject : (classifyObject p c object).HasReason x q ↔
    (object.stackAlloca? = some x ∧ isSmartPointerSlot p x = false ∧ q = .boundaryPointsTo) ∨
      c.HasReason x q := by
  unfold classifyObject
  cases object.stackAlloca? with
  | none => simp
  | some alloca =>
    dsimp only
    by_cases hx : x = alloca
    · subst hx
      cases hsmart : isSmartPointerSlot p x with
      | true => simp
      | false => simp [hasReason_addRelocation]
    · have hne : ¬ alloca = x := fun h => hx h.symm
      split
      · simp [hne]
      · simp [hasReason_addRelocation, hx, hne]

/-- A pointer across the boundary may point to a stack slot. -/
def MayPointTo (p : Program) (facts : Facts) (value : PointerValue) (alloca : InstId) : Prop :=
  ∃ object ∈ facts.objects value.id, object.stackAlloca? = some alloca ∧
    isSmartPointerSlot p alloca = false

/-- A pointer that lives in a register and crosses the boundary. -/
def CrossesBoundary (p : Program) (value : PointerValue) : Prop :=
  value.topLevel = true ∧ isBoundaryPointer p value = true

/-- What a pointer adds. -/
theorem hasReason_classifyPointer : (classifyPointer p facts c value).HasReason x q ↔
    (CrossesBoundary p value ∧ MayPointTo p facts value x ∧ q = .boundaryPointsTo) ∨
      c.HasReason x q := by
  unfold classifyPointer
  by_cases hcrosses : value.topLevel = true ∧ isBoundaryPointer p value = true
  · have hobjects : ((facts.objects value.id).foldl (classifyObject p)
        (c.addBoundaryPointer value.id)).HasReason x q ↔ _ :=
      foldl_iff (P := fun c => HasReason c x q) fun c object => hasReason_classifyObject
    rw [if_pos hcrosses]
    refine hobjects.trans (or_congr ⟨?_, ?_⟩ Iff.rfl)
    · rintro ⟨object, hobject, halloca, hsmart, hq⟩
      exact ⟨hcrosses, ⟨object, hobject, halloca, hsmart⟩, hq⟩
    · rintro ⟨-, ⟨object, hobject, halloca, hsmart⟩, hq⟩
      exact ⟨object, hobject, halloca, hsmart, hq⟩
  · rw [if_neg hcrosses]
    exact (or_iff_right fun h => hcrosses h.1).symm

/-- An object that a pointer may point to adds no pointer, and leaves no stack slot without a
reason. -/
theorem classifyObject_keeps : (classifyObject p c object).boundaryPointers = c.boundaryPointers ∧
    (c.AllHaveReasons → (classifyObject p c object).AllHaveReasons) := by
  unfold classifyObject
  split
  · exact ⟨rfl, id⟩
  · split
    · exact ⟨rfl, id⟩
    · exact ⟨rfl, AllHaveReasons.addRelocation⟩

/-- A pointer is added when it crosses the boundary. -/
theorem mem_boundaryPointers_classifyPointer :
    v ∈ (classifyPointer p facts c value).boundaryPointers ↔
      (CrossesBoundary p value ∧ v = value.id) ∨ v ∈ c.boundaryPointers := by
  unfold classifyPointer
  by_cases hcrosses : value.topLevel = true ∧ isBoundaryPointer p value = true
  · have hobjects : ((facts.objects value.id).foldl (classifyObject p)
        (c.addBoundaryPointer value.id)).boundaryPointers =
          (c.addBoundaryPointer value.id).boundaryPointers :=
      List.foldlRecOn _ _ (motive := fun c' => Classification.boundaryPointers c' = _) rfl
        fun c' hc' object _ => classifyObject_keeps.1.trans hc'
    have hown : CrossesBoundary p value := hcrosses
    rw [if_pos hcrosses, hobjects, addBoundaryPointer, OrderedSet.mem_insert]
    simp [hown]
  · rw [if_neg hcrosses]
    exact (or_iff_right fun h => hcrosses h.1).symm

/-- A pointer leaves no stack slot without a reason. -/
theorem AllHaveReasons.classifyPointer (h : c.AllHaveReasons) :
    (classifyPointer p facts c value).AllHaveReasons := by
  unfold Classification.classifyPointer
  split
  · exact List.foldlRecOn _ _ (motive := AllHaveReasons) h
      fun c' hc' object _ => classifyObject_keeps.2 hc'
  · exact h

/-! ## Classifications of facts -/

/-- The stages of a classification, before pointers are looked at and afterwards. -/
theorem stages_of_ofFacts (h : ofFacts p facts = .ok c) : ∃ c₁ c₂,
    facts.reachableAllocations.foldlM (classifyAllocation p) empty = .ok c₁ ∧
    facts.taintedStackObjects.foldlM (classifyTainted p) c₁ = .ok c₂ ∧
    c = p.pointerValues.foldl (classifyPointer p facts) c₂ ∧
    c₁.relocations = OrderedMap.empty ∧ c₂.boundaryPointers = OrderedSet.empty := by
  rw [ofFacts, bind_eq_ok] at h
  obtain ⟨c₁, hc₁, h⟩ := h
  rw [bind_eq_ok] at h
  obtain ⟨c₂, hc₂, h⟩ := h
  have hstart : c₁.relocations = OrderedMap.empty ∧ c₁.boundaryPointers = OrderedSet.empty :=
    foldlM_invariant (P := fun _ c => Classification.relocations c = OrderedMap.empty ∧
      Classification.boundaryPointers c = OrderedSet.empty) ⟨rfl, rfl⟩
      (fun _ _ b b' hb hstep => by
        obtain ⟨hrelocations, hpointers⟩ := classifyAllocation_keeps hstep
        exact ⟨hrelocations.trans hb.1, hpointers.trans hb.2⟩) hc₁
  have htainted : c₂.boundaryPointers = OrderedSet.empty :=
    foldlM_invariant (P := fun _ c => Classification.boundaryPointers c = OrderedSet.empty)
      hstart.2 (fun _ _ b b' hb hstep => by
        rcases classifyTainted_ok hstep with ⟨-, rfl⟩ | ⟨-, rfl⟩
        · exact hb
        · exact hb) hc₂
  exact ⟨c₁, c₂, hc₁, hc₂, (Except.ok.inj h).symm, hstart.1, htainted⟩

/-- A stack slot has to move because it is tainted, or because a pointer across the boundary may
point to it. -/
theorem hasReason_ofFacts (h : ofFacts p facts = .ok c) : c.HasReason x q ↔
    (q = .taintedStackObject ∧ x ∈ facts.taintedStackObjects ∧ p.IsMovable x) ∨
    (q = .boundaryPointsTo ∧
      ∃ value ∈ p.pointerValues, CrossesBoundary p value ∧ MayPointTo p facts value x) := by
  obtain ⟨c₁, c₂, -, hc₂, rfl, hempty, -⟩ := stages_of_ofFacts h
  have hnone : ¬ c₁.HasReason x q := by
    rintro ⟨reasons, hreasons, -⟩
    rw [reasons?, hempty] at hreasons
    simp at hreasons
  have htainted : c₂.HasReason x q ↔ _ := foldlM_iff (P := fun c => HasReason c x q)
    (fun _ _ _ hstep => hasReason_classifyTainted hstep) hc₂
  have hpointers : (p.pointerValues.foldl (classifyPointer p facts) c₂).HasReason x q ↔ _ :=
    foldl_iff (P := fun c => HasReason c x q) fun c value => hasReason_classifyPointer
  rw [hpointers, htainted, or_iff_left hnone, or_comm]
  refine or_congr ⟨?_, ?_⟩ ⟨?_, ?_⟩
  · rintro ⟨alloca, halloca, rfl, rfl, hmovable⟩
    exact ⟨rfl, halloca, hmovable⟩
  · rintro ⟨rfl, hx, hmovable⟩
    exact ⟨x, hx, rfl, rfl, hmovable⟩
  · rintro ⟨value, hvalue, hcrosses, hpoints, rfl⟩
    exact ⟨rfl, value, hvalue, hcrosses, hpoints⟩
  · rintro ⟨rfl, value, hvalue, hcrosses, hpoints⟩
    exact ⟨value, hvalue, hcrosses, hpoints, rfl⟩

/-- Every stack slot that a classification moves has a reason to. -/
theorem allHaveReasons_ofFacts (h : ofFacts p facts = .ok c) : c.AllHaveReasons := by
  obtain ⟨c₁, c₂, -, hc₂, rfl, hempty, -⟩ := stages_of_ofFacts h
  have hstart : c₁.AllHaveReasons := by
    intro alloca reasons hreasons
    rw [reasons?, hempty] at hreasons
    simp at hreasons
  have htainted : c₂.AllHaveReasons :=
    foldlM_invariant (P := fun _ c => AllHaveReasons c) hstart (fun _ _ b b' hb hstep => by
      rcases classifyTainted_ok hstep with ⟨-, rfl⟩ | ⟨-, rfl⟩
      · exact hb.addRelocation
      · exact hb) hc₂
  exact List.foldlRecOn _ _ (motive := AllHaveReasons) htainted
    fun c' hc' value _ => hc'.classifyPointer

/-- The pointers across the boundary are those of the program. -/
theorem mem_boundaryPointers_ofFacts (h : ofFacts p facts = .ok c) : v ∈ c.boundaryPointers ↔
    ∃ value ∈ p.pointerValues, CrossesBoundary p value ∧ v = value.id := by
  obtain ⟨c₁, c₂, -, -, rfl, -, hempty⟩ := stages_of_ofFacts h
  have hpointers : v ∈ (p.pointerValues.foldl (classifyPointer p facts) c₂).boundaryPointers ↔ _ :=
    foldl_iff (P := fun c => v ∈ Classification.boundaryPointers c)
      fun c value => mem_boundaryPointers_classifyPointer
  rw [hpointers, hempty]
  simp

end Classification

/-! ## An example -/

/-- A function that makes two stack slots, of which the smart-pointer interface owns the second, and
calls out of the safe code with a pointer; another function calls it. -/
def exchange : Program where
  functions := [⟨⟨0⟩, "exchanging", ⟨0⟩⟩, ⟨⟨1⟩, "asking", ⟨10⟩⟩]
  instructions := [
    ⟨⟨1⟩, ⟨0⟩, ⟨0⟩, .alloca, []⟩,
    ⟨⟨2⟩, ⟨0⟩, ⟨0⟩, .alloca, [.smartPointer]⟩,
    ⟨⟨3⟩, ⟨0⟩, ⟨0⟩, .call .indirect .plain, [.boundaryCrossing]⟩,
    ⟨⟨4⟩, ⟨1⟩, ⟨10⟩, .call (.direct ⟨0⟩) .plain, []⟩]
  pointerValues := [⟨⟨0⟩, some ⟨3⟩, [], true⟩]
  consistent := by decide

/-- The call out of the safe code allocates for both functions, and its pointer may point to both
stack slots. -/
def exchangeFacts : Facts where
  reachableAllocations := [⟨⟨3⟩, [⟨4⟩]⟩, ⟨⟨3⟩, []⟩]
  taintedStackObjects := [⟨1⟩, ⟨2⟩]
  pointsTo := OrderedMap.ofList [(⟨0⟩, [⟨⟨0⟩, .stack ⟨1⟩⟩, ⟨⟨1⟩, .stack ⟨2⟩⟩])]

end HeapDomains
