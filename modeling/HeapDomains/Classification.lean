import HeapDomains.Program.Basic
import HeapDomains.Facts.Basic

/-!
# Provenance classification

Which allocations unsafe code can reach, which stack slots have to be moved to the heap, and which
pointers cross the boundary between safe and unsafe code. `Classification.ofFacts` draws all three
from a program and the facts about it; nothing that was classified is ever taken back.
-/

namespace HeapDomains

/-- Whether unsafe code can reach what a call site allocates. -/
inductive SiteClass where
  /-- It cannot. -/
  | safe
  /-- It can. -/
  | exposed
  deriving DecidableEq

/-- The name of the class of a call site. -/
def SiteClass.name : SiteClass → String
  | safe => "safe"
  | exposed => "unsafe"

/-- Whether a stack slot may stay on the stack. -/
inductive StackClass where
  /-- It may. -/
  | safe
  /-- It has to move to the heap. -/
  | requiresRelocation
  deriving DecidableEq

/-- The name of the class of a stack slot. -/
def StackClass.name : StackClass → String
  | safe => "safe"
  | requiresRelocation => "requires_relocation"

/-- Why a stack slot has to move. -/
inductive RelocationReason where
  /-- The facts list it as tainted. -/
  | taintedStackObject
  /-- A pointer that crosses the boundary may point to it. -/
  | boundaryPointsTo
  deriving DecidableEq

namespace RelocationReason

/-- The name of a reason. -/
def name : RelocationReason → String
  | taintedStackObject => "tainted_stack_object"
  | boundaryPointsTo => "boundary_points_to"

/-- The reason with a name. -/
def ofName? : String → Option RelocationReason
  | "tainted_stack_object" => some taintedStackObject
  | "boundary_points_to" => some boundaryPointsTo
  | _ => none

instance : Ranked RelocationReason where
  rank
    | taintedStackObject => 0
    | boundaryPointsTo => 1
  rank_inj a b h := by cases a <;> cases b <;> first | rfl | cases h

end RelocationReason

/-- An exposed allocation in one of its calling contexts. -/
structure AllocationSite where
  /-- The call that allocates. -/
  callSite : InstId
  /-- The function the call is made from. -/
  function : FunctionId
  /-- The function that is known to be called. -/
  callee : Option FunctionId
  /-- The calls through which the allocation is reached, innermost first. -/
  context : List InstId
  deriving DecidableEq

/-- What is known about allocations, stack slots and pointers. -/
structure Classification where
  /-- The exposed allocations without repetition, in the order of their first report. -/
  allocations : List AllocationSite
  /-- The call sites that allocate for unsafe code. -/
  exposedSites : OrderedSet InstId
  /-- The stack slots that have to move, with the reasons. -/
  relocations : OrderedMap InstId (OrderedSet RelocationReason)
  /-- The pointers that cross the boundary. -/
  boundaryPointers : OrderedSet ValueId
  deriving DecidableEq

namespace Classification

/-- Nothing is classified. -/
def empty : Classification := ⟨[], OrderedSet.empty, OrderedMap.empty, OrderedSet.empty⟩

instance : Inhabited Classification := ⟨empty⟩

/-- Whether an allocation in this context is new. -/
def isNewAllocation (c : Classification) (site : AllocationSite) : Bool :=
  !c.allocations.contains site

/-- Adds an exposed allocation in one of its contexts. -/
def addAllocation (c : Classification) (site : AllocationSite) : Classification :=
  { c with
    allocations := if c.isNewAllocation site then c.allocations ++ [site] else c.allocations
    exposedSites := c.exposedSites.insert site.callSite }

/-- The reasons for which a stack slot has to move. -/
def reasons? (c : Classification) (alloca : InstId) : Option (OrderedSet RelocationReason) :=
  c.relocations.get? alloca

/-- Adds a reason for which a stack slot has to move. -/
def addRelocation (c : Classification) (alloca : InstId) (reason : RelocationReason) :
    Classification :=
  { c with
    relocations := c.relocations.modify alloca fun old =>
      (old.getD OrderedSet.empty).insert reason }

/-- Adds a pointer that crosses the boundary. -/
def addBoundaryPointer (c : Classification) (value : ValueId) : Classification :=
  { c with boundaryPointers := c.boundaryPointers.insert value }

/-- The class of a call site. -/
def siteClass (c : Classification) (site : InstId) : SiteClass :=
  if site ∈ c.exposedSites then .exposed else .safe

/-- The class of a stack slot. -/
def stackClass (c : Classification) (alloca : InstId) : StackClass :=
  if c.relocations.contains alloca then .requiresRelocation else .safe

/-- Adds a reported allocation; its location has to be a call. -/
def classifyAllocation (p : Program) (c : Classification) (report : ReachableAllocation) :
    Except InvariantViolation Classification :=
  match p.callSite report.location with
  | .error violation => .error violation
  | .ok site =>
    .ok (c.addAllocation ⟨site.id, site.function, site.callee?, report.context⟩)

/-- Adds a tainted stack slot; it has to be an instruction, and is left alone when it makes no stack
slot or one that the smart-pointer interface owns. -/
def classifyTainted (p : Program) (c : Classification) (alloca : InstId) :
    Except InvariantViolation Classification :=
  match p.instruction alloca with
  | .error violation => .error violation
  | .ok inst =>
    if inst.isAlloca ∧ ¬ inst.hasMark .smartPointer then
      .ok (c.addRelocation alloca .taintedStackObject)
    else .ok c

/-- Whether the instruction that computes a pointer, or one that uses it, crosses the boundary. -/
def isBoundaryPointer (p : Program) (value : PointerValue) : Bool :=
  (value.definedBy.toList ++ value.users).any fun id =>
    (p.findInstruction? id).any (·.crossesBoundary)

/-- Whether a stack slot is owned by the smart-pointer interface. -/
def isSmartPointerSlot (p : Program) (alloca : InstId) : Bool :=
  (p.findInstruction? alloca).any (·.hasMark .smartPointer)

/-- Adds a reason for each stack slot that a boundary pointer may point to, those of the
smart-pointer interface apart. -/
def classifyObject (p : Program) (c : Classification) (object : MemoryObject) : Classification :=
  match object.stackAlloca? with
  | none => c
  | some alloca =>
    if isSmartPointerSlot p alloca then c else c.addRelocation alloca .boundaryPointsTo

/-- Adds a pointer that lives in a register and crosses the boundary, with all it points to. -/
def classifyPointer (p : Program) (facts : Facts) (c : Classification) (value : PointerValue) :
    Classification :=
  if value.topLevel ∧ isBoundaryPointer p value then
    (facts.objects value.id).foldl (classifyObject p) (c.addBoundaryPointer value.id)
  else c

/-- The classification of a program by the facts about it: allocations first, then tainted stack
slots, then boundary pointers. -/
def ofFacts (p : Program) (facts : Facts) : Except InvariantViolation Classification := do
  let c ← facts.reachableAllocations.foldlM (classifyAllocation p) empty
  let c ← facts.taintedStackObjects.foldlM (classifyTainted p) c
  return p.pointerValues.foldl (classifyPointer p facts) c

end Classification

end HeapDomains
