import HeapDomains.Proofs.Relocation
import HeapDomains.Proofs.Report

/-!
# Whether what moves is a stack slot

Two paths lead to the stack slots that a report moves, and they check the facts differently. A
tainted slot is looked up: it has to be an instruction, and it is left alone when it makes no stack
slot. What a pointer across the boundary may point to is only kept from moving when the
smart-pointer interface owns it. Hence all that is moved is a stack slot of the program exactly when
the facts about those pointers name none but stack slots (`movesStackSlots_of_analyse`). A run does
not check that: it may move an instruction of another kind, or none at all
(`exists_moved_not_stackSlot`).
-/

namespace HeapDomains

open Classification (CrossesBoundary MayPointTo isSmartPointerSlot)

variable {p : Program} {config : PassConfig} {facts : Facts} {report : Report} {x : InstId}

namespace Program

/-- An instruction makes a stack slot. -/
def IsStackSlot (p : Program) (alloca : InstId) : Prop :=
  ∃ inst, p.instruction alloca = .ok inst ∧ inst.isAlloca = true

/-- The smart-pointer interface owns no stack slot under a number when no instruction with that
number says so. -/
theorem isSmartPointerSlot_eq_false_iff : isSmartPointerSlot p x = false ↔
    ∀ inst, p.instruction x = .ok inst → ¬ inst.hasMark .smartPointer = true := by
  unfold isSmartPointerSlot instruction
  cases p.findInstruction? x with
  | none => simp
  | some inst => simp

/-- A slot may be moved when it is a stack slot that the smart-pointer interface does not own. -/
theorem isMovable_iff : p.IsMovable x ↔ p.IsStackSlot x ∧ isSmartPointerSlot p x = false := by
  rw [isSmartPointerSlot_eq_false_iff]
  constructor
  · rintro ⟨inst, hinst, halloca, hmark⟩
    refine ⟨⟨inst, hinst, halloca⟩, fun found hfound => ?_⟩
    rwa [Except.ok.inj (hfound.symm.trans hinst)]
  · rintro ⟨⟨inst, hinst, halloca⟩, howned⟩
    exact ⟨inst, hinst, halloca, howned inst hinst⟩

end Program

/-- The objects that pointers across the boundary may point to, and that live on the stack, are in
stack slots of the program, those of the smart-pointer interface apart. -/
def Facts.NamesStackSlots (facts : Facts) (p : Program) : Prop :=
  ∀ value ∈ p.pointerValues, CrossesBoundary p value →
    ∀ x, MayPointTo p facts value x → p.IsStackSlot x

/-- What a report moves. -/
structure Report.MovesStackSlots (report : Report) (p : Program) (facts : Facts) : Prop where
  /-- It is tainted and may be moved, or a pointer across the boundary may point to it. -/
  isRelocated_iff : ∀ x, report.isRelocated x = true ↔
    (x ∈ facts.taintedStackObjects ∧ p.IsMovable x) ∨
      ∃ value ∈ p.pointerValues, CrossesBoundary p value ∧ MayPointTo p facts value x
  /-- If it moves because it is tainted, it is a stack slot that may be moved. -/
  isMovable_of_tainted : ∀ x reasons, report.relocations.get? x = some reasons →
    .taintedStackObject ∈ reasons → p.IsMovable x
  /-- The smart-pointer interface does not own it. -/
  not_smartPointer : ∀ x inst, report.isRelocated x = true → p.instruction x = .ok inst →
    ¬ inst.hasMark .smartPointer = true
  /-- All of it are stack slots that may be moved exactly when the facts name stack slots. -/
  isMovable_iff : (∀ x, report.isRelocated x = true → p.IsMovable x) ↔ facts.NamesStackSlots p

namespace Classification

variable {c : Classification}

/-- What is moved is moved for a reason. -/
theorem AllHaveReasons.contains_iff (h : c.AllHaveReasons) :
    c.relocations.contains x = true ↔ ∃ reason, c.HasReason x reason := by
  unfold OrderedMap.contains
  rw [Option.isSome_iff_exists]
  constructor
  · rintro ⟨reasons, hreasons⟩
    obtain ⟨reason, hreason⟩ := h x reasons hreasons
    exact ⟨reason, reasons, hreasons, hreason⟩
  · rintro ⟨reason, reasons, hreasons, -⟩
    exact ⟨reasons, hreasons⟩

/-- What is moved is tainted and may be moved, or a pointer across the boundary may point to it. -/
theorem contains_relocations_iff (h : ofFacts p facts = .ok c) :
    c.relocations.contains x = true ↔
      (x ∈ facts.taintedStackObjects ∧ p.IsMovable x) ∨
        ∃ value ∈ p.pointerValues, CrossesBoundary p value ∧ MayPointTo p facts value x := by
  rw [(allHaveReasons_ofFacts h).contains_iff]
  constructor
  · rintro ⟨reason, hreason⟩
    rcases (hasReason_ofFacts h).1 hreason with ⟨-, htainted⟩ | ⟨-, hpoints⟩
    · exact Or.inl htainted
    · exact Or.inr hpoints
  · rintro (htainted | hpoints)
    · exact ⟨_, (hasReason_ofFacts h).2 (Or.inl ⟨rfl, htainted⟩)⟩
    · exact ⟨_, (hasReason_ofFacts h).2 (Or.inr ⟨rfl, hpoints⟩)⟩

/-- The smart-pointer interface owns nothing that is moved. -/
theorem isSmartPointerSlot_of_contains (h : ofFacts p facts = .ok c)
    (hx : c.relocations.contains x = true) : isSmartPointerSlot p x = false := by
  rcases (contains_relocations_iff h).1 hx with
    ⟨-, hmovable⟩ | ⟨value, -, -, object, -, -, hfree⟩
  · exact (Program.isMovable_iff.1 hmovable).2
  · exact hfree

/-- All that is moved are stack slots that may be moved exactly when the facts name stack slots. -/
theorem forall_isMovable_iff (h : ofFacts p facts = .ok c) :
    (∀ x, c.relocations.contains x = true → p.IsMovable x) ↔ facts.NamesStackSlots p := by
  constructor
  · intro hall value hvalue hcrosses x hpoints
    have hx := (contains_relocations_iff h).2 (Or.inr ⟨value, hvalue, hcrosses, hpoints⟩)
    exact (Program.isMovable_iff.1 (hall x hx)).1
  · intro hnames x hx
    rcases (contains_relocations_iff h).1 hx with
      ⟨-, hmovable⟩ | ⟨value, hvalue, hcrosses, hpoints⟩
    · exact hmovable
    · exact Program.isMovable_iff.2
        ⟨hnames value hvalue hcrosses x hpoints, isSmartPointerSlot_of_contains h hx⟩

end Classification

/-- A run that succeeds moves stack slots of the program, as far as the facts name stack slots. -/
theorem movesStackSlots_of_analyse (h : p.analyse config facts = .ok report) :
    report.MovesStackSlots p facts := by
  obtain ⟨c, g, plan, hc, -, -, rfl⟩ := Program.stages_of_analyse h
  constructor
  · exact fun x => Classification.contains_relocations_iff hc
  · intro x reasons hreasons htainted
    rcases (Classification.hasReason_ofFacts hc).1 ⟨reasons, hreasons, htainted⟩ with
      ⟨-, -, hmovable⟩ | ⟨hne, -⟩
    · exact hmovable
    · cases hne
  · intro x inst hx
    have howned := Classification.isSmartPointerSlot_of_contains hc hx
    exact Program.isSmartPointerSlot_eq_false_iff.1 howned inst
  · exact Classification.forall_isMovable_iff hc

/-- The exchange moves its first stack slot, for both reasons, and nothing else. -/
theorem movesStackSlots_exchange : ∃ report,
    exchange.analyse .standard exchangeFacts = .ok report ∧
      report.MovesStackSlots exchange exchangeFacts ∧ report.isRelocated ⟨1⟩ = true ∧
      report.relocations.size = 1 := by
  refine ⟨_, rfl, ?_, rfl, rfl⟩
  exact movesStackSlots_of_analyse (show exchange.analyse .standard exchangeFacts = .ok _ from rfl)

/-- The pointer of the exchange may point to the call, and to what no instruction makes. -/
def strayFacts : Facts :=
  { exchangeFacts with
    pointsTo := OrderedMap.ofList [(⟨0⟩, [⟨⟨0⟩, .stack ⟨3⟩⟩, ⟨⟨1⟩, .stack ⟨7⟩⟩])] }

/-- Both are moved then. -/
theorem exists_moved_not_stackSlot : PassConfig.standard.validated = .ok .standard ∧
    ∃ report, exchange.analyse .standard strayFacts = .ok report ∧
      report.isRelocated ⟨3⟩ = true ∧ report.isRelocated ⟨7⟩ = true ∧
      ¬ exchange.IsMovable ⟨3⟩ ∧ ¬ exchange.IsMovable ⟨7⟩ := by
  refine ⟨rfl, _, rfl, rfl, rfl, ?_, ?_⟩
  · rintro ⟨inst, hinst, halloca, -⟩
    obtain rfl := Except.ok.inj hinst
    cases halloca
  · rintro ⟨inst, hinst, -⟩
    cases hinst

end HeapDomains
