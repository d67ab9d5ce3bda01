import HeapDomains.Proofs.StackSlots

/-!
# What a classification says

A classification says of allocations, pointers and stack slots what the facts and the program do,
and no more: `Classification.ReflectsFacts` lists it, each part as a condition on the listed
instructions and pointer values. Several facts may name the same slot, and several pointer values
may share a number, so each set is a union, which the loops gather one item after the other
(`hasReason_ofFacts`, `mem_boundaryPointers_ofFacts`, `mem_exposedSites_ofFacts`).
`reflectsFacts_ofFacts` says that every classification is one of these.
-/

namespace HeapDomains

namespace Classification

variable {p : Program} {facts : Facts} {c c' : Classification} {x s : InstId}
  {value : PointerValue}

/-! ## Conditions on the parts of a program -/

/-- An instruction that crosses the boundary computes a pointer or uses it. -/
def IsCrossed (p : Program) (value : PointerValue) : Prop :=
  ∃ inst ∈ p.instructions, (value.definedBy = some inst.id ∨ inst.id ∈ value.users) ∧
    .boundaryCrossing ∈ inst.marks

/-- A pointer crosses the boundary by the instruction that computes it or by one that uses it. -/
theorem isBoundaryPointer_iff : isBoundaryPointer p value = true ↔ IsCrossed p value := by
  have hid : ∀ id, id ∈ value.definedBy.toList ++ value.users ↔
      value.definedBy = some id ∨ id ∈ value.users := by
    intro id
    rw [List.mem_append, Option.mem_toList]
  unfold isBoundaryPointer
  rw [List.any_eq_true]
  constructor
  · rintro ⟨id, hmem, hany⟩
    obtain ⟨inst, hfound, hcrosses⟩ := (Option.any_eq_true _ _).1 hany
    obtain ⟨hinst, rfl⟩ := Program.findInstruction?_eq_some_iff.1 hfound
    exact ⟨inst, hinst, (hid _).1 hmem, Instruction.hasMark_iff.1 hcrosses⟩
  · rintro ⟨inst, hinst, hmem, hmark⟩
    refine ⟨inst.id, (hid _).2 hmem, ?_⟩
    rw [Program.findInstruction?_of_mem hinst]
    exact Instruction.hasMark_iff.2 hmark

/-- A stack slot may be moved when an instruction makes it that is not a smart pointer's. -/
theorem isMovable_iff_exists : p.IsMovable x ↔
    ∃ inst ∈ p.instructions, inst.id = x ∧ inst.kind = .alloca ∧ .smartPointer ∉ inst.marks := by
  unfold Program.IsMovable
  simp only [Program.instruction_eq_ok_iff, Instruction.isAlloca_iff, Instruction.hasMark_iff,
    and_assoc]

/-- A pointer may point to a stack slot when the facts say so and no instruction under its number
is a smart pointer's. -/
theorem mayPointTo_iff : MayPointTo p facts value x ↔
    (∃ object ∈ facts.objects value.id, object.storage = .stack x) ∧
      ∀ inst ∈ p.instructions, inst.id = x → .smartPointer ∉ inst.marks := by
  have hslot : ∀ object : MemoryObject,
      object.stackAlloca? = some x ↔ object.storage = .stack x := by
    intro object
    unfold MemoryObject.stackAlloca?
    cases object.storage with
    | stack alloca => simp
    | heap => simp
    | global => simp
  have howned : isSmartPointerSlot p x = false ↔
      ∀ inst ∈ p.instructions, inst.id = x → .smartPointer ∉ inst.marks := by
    rw [Program.isSmartPointerSlot_eq_false_iff]
    simp only [Program.instruction_eq_ok_iff, Instruction.hasMark_iff, and_imp]
  unfold MayPointTo
  simp only [hslot, howned]
  constructor
  · rintro ⟨object, hobject, hstorage, hfree⟩
    exact ⟨⟨object, hobject, hstorage⟩, hfree⟩
  · rintro ⟨⟨object, hobject, hstorage⟩, hfree⟩
    exact ⟨object, hobject, hstorage, hfree⟩

/-! ## Allocations -/

/-- A reported allocation exposes the call site where it is made. -/
theorem mem_exposedSites_classifyAllocation {report : ReachableAllocation}
    (h : classifyAllocation p c report = .ok c') :
    s ∈ c'.exposedSites ↔ s = report.location ∨ s ∈ c.exposedSites := by
  unfold classifyAllocation at h
  split at h
  · simp at h
  · next site hsite =>
    obtain rfl := Except.ok.inj h
    rw [addAllocation, OrderedSet.mem_insert, Program.callSite_id hsite]

/-- The exposed call sites are the reported ones. -/
theorem mem_exposedSites_ofFacts (h : ofFacts p facts = .ok c) :
    s ∈ c.exposedSites ↔ ∃ report ∈ facts.reachableAllocations, s = report.location := by
  obtain ⟨c₁, hc₁, -, hsites⟩ := allocations_of_ofFacts h
  have hreported : s ∈ c₁.exposedSites ↔
      (∃ report ∈ facts.reachableAllocations, s = report.location) ∨ s ∈ empty.exposedSites :=
    foldlM_iff (P := fun c => s ∈ Classification.exposedSites c)
      (fun _ _ _ hstep => mem_exposedSites_classifyAllocation hstep) hc₁
  have hnone : s ∉ empty.exposedSites := OrderedSet.not_mem_empty s
  rw [hsites, hreported, or_iff_left hnone]

/-- An allocation is made by a call of the program, from the function that the call belongs to and
with the callee that the call names. -/
def IsMadeByCall (p : Program) (a : AllocationSite) : Prop :=
  ∃ inst ∈ p.instructions, inst.id = a.callSite ∧ inst.function = a.function ∧
    ∃ target flavor, inst.kind = .call target flavor ∧ target.callee? = a.callee

/-- Every allocation is made by a call of the program. -/
theorem isMadeByCall_ofFacts (h : ofFacts p facts = .ok c) {a : AllocationSite}
    (ha : a ∈ c.allocations) : IsMadeByCall p a := by
  obtain ⟨site, hsite, heq⟩ := (holdsPaths_ofFacts h).callSite_eq a ha
  obtain ⟨inst, hinst, hid, hcall⟩ := Program.callSite_eq_ok hsite
  unfold Instruction.callSite? at hcall
  split at hcall
  · next target flavor hkind =>
    obtain rfl := Option.some.inj hcall
    refine ⟨inst, hinst, hid, ?_, target, flavor, hkind, ?_⟩
    · rw [heq]
    · rw [heq]
      rfl
  · simp at hcall

/-! ## The whole classification -/

/-- What a classification says of a program and the facts about it. -/
structure ReflectsFacts (p : Program) (facts : Facts) (c : Classification) : Prop where
  /-- The allocations are the reported ones without repetition, in the order of their first
  report. -/
  allocations_eq : c.allocations.map (fun a => (a.callSite, a.context)) =
    (facts.reachableAllocations.map fun report => (report.location, report.context)).eraseDups
  /-- Each is made by a call, from its function and with its callee. -/
  isMadeByCall : ∀ a ∈ c.allocations, IsMadeByCall p a
  /-- The call sites that allocate for unsafe code are those that are reported. -/
  siteClass_eq_iff : ∀ s, c.siteClass s = .exposed ↔
    ∃ report ∈ facts.reachableAllocations, report.location = s
  /-- The boundary pointers are the numbers of the pointers in registers that an instruction that
  crosses the boundary computes or uses. -/
  mem_boundaryPointers_iff : ∀ v, v ∈ c.boundaryPointers ↔
    ∃ value ∈ p.pointerValues, value.id = v ∧ value.topLevel = true ∧ IsCrossed p value
  /-- A stack slot moves because it is tainted when it is listed as such, an instruction makes it,
  and that one is not a smart pointer's. -/
  tainted_iff : ∀ x, c.HasReason x .taintedStackObject ↔ x ∈ facts.taintedStackObjects ∧
    ∃ inst ∈ p.instructions, inst.id = x ∧ inst.kind = .alloca ∧ .smartPointer ∉ inst.marks
  /-- It moves because of a pointer when the facts let a boundary pointer point to it, and no
  instruction under its number is a smart pointer's. -/
  pointsTo_iff : ∀ x, c.HasReason x .boundaryPointsTo ↔
    (∃ value ∈ p.pointerValues, value.topLevel = true ∧ IsCrossed p value ∧
      ∃ object ∈ facts.objects value.id, object.storage = .stack x) ∧
    ∀ inst ∈ p.instructions, inst.id = x → .smartPointer ∉ inst.marks
  /-- The stack slots that move are those with a reason. -/
  stackClass_eq_iff : ∀ x, c.stackClass x = .requiresRelocation ↔ ∃ reason, c.HasReason x reason

/-- A classification says of the program and the facts what they are. -/
theorem reflectsFacts_ofFacts (h : ofFacts p facts = .ok c) : ReflectsFacts p facts c := by
  constructor
  · -- A path is a pair of a location and a context, so first mentions of both are the same.
    have hpath : Function.Injective fun pair : InstId × List InstId => pair.1 :: pair.2 := by
      rintro ⟨location, context⟩ ⟨location', context'⟩ hcons
      obtain ⟨rfl, rfl⟩ := List.cons.inj hcons
      rfl
    refine List.map_injective_iff.2 hpath ?_
    rw [← map_eraseDups hpath, List.map_map, List.map_map]
    exact paths_ofFacts h
  · exact fun a ha => isMadeByCall_ofFacts h ha
  · intro s
    unfold siteClass
    simp only [mem_exposedSites_ofFacts h, eq_comm (a := s)]
    simp
  · intro v
    rw [mem_boundaryPointers_ofFacts h]
    simp only [CrossesBoundary, isBoundaryPointer_iff]
    constructor
    · rintro ⟨value, hvalue, ⟨htop, hcrosses⟩, rfl⟩
      exact ⟨value, hvalue, rfl, htop, hcrosses⟩
    · rintro ⟨value, hvalue, rfl, htop, hcrosses⟩
      exact ⟨value, hvalue, ⟨htop, hcrosses⟩, rfl⟩
  · intro x
    rw [hasReason_ofFacts h, isMovable_iff_exists]
    simp
  · intro x
    rw [hasReason_ofFacts h]
    simp only [CrossesBoundary, isBoundaryPointer_iff, mayPointTo_iff]
    constructor
    · rintro (⟨hne, -⟩ | ⟨-, value, hvalue, ⟨htop, hcrosses⟩, hobject, hfree⟩)
      · cases hne
      · exact ⟨⟨value, hvalue, htop, hcrosses, hobject⟩, hfree⟩
    · rintro ⟨⟨value, hvalue, htop, hcrosses, hobject⟩, hfree⟩
      exact Or.inr ⟨trivial, value, hvalue, ⟨htop, hcrosses⟩, hobject, hfree⟩
  · intro x
    unfold stackClass
    rw [← (allHaveReasons_ofFacts h).contains_iff]
    simp

/-- The classification of the exchange holds two allocations, a pointer and a slot that moves. -/
theorem reflectsFacts_exchange : ∃ c, ofFacts exchange exchangeFacts = .ok c ∧
    ReflectsFacts exchange exchangeFacts c ∧ c.allocations.length = 2 ∧
      c.boundaryPointers = OrderedSet.ofList [⟨0⟩] ∧ c.relocations.size = 1 := by
  refine ⟨_, rfl, ?_, rfl, rfl, rfl⟩
  exact reflectsFacts_ofFacts (show ofFacts exchange exchangeFacts = .ok _ from rfl)

end Classification

end HeapDomains
