import HeapDomains.Ordered.Map
import HeapDomains.Id

/-!
# Facts about a program

What a context-sensitive dataflow analysis found out about a program: the allocations that unsafe
code can reach, each with a calling context, the stack slots whose address flows into tainted
values, and the objects each pointer may point to.
-/

namespace HeapDomains

/-- Where a memory object lives. -/
inductive Storage where
  /-- In a stack slot. -/
  | stack (alloca : InstId)
  /-- On the heap. -/
  | heap
  /-- In a global variable. -/
  | global
  deriving DecidableEq

/-- An abstract memory object. -/
structure MemoryObject where
  /-- Its number. -/
  id : ObjectId
  /-- Where it lives. -/
  storage : Storage
  deriving DecidableEq

/-- The stack slot an object lives in. -/
def MemoryObject.stackAlloca? (object : MemoryObject) : Option InstId :=
  match object.storage with
  | .stack alloca => some alloca
  | .heap | .global => none

/-- An allocation that unsafe code can reach. -/
structure ReachableAllocation where
  /-- The call that allocates. -/
  location : InstId
  /-- The calls through which the allocation is reached, innermost first. -/
  context : List InstId
  deriving DecidableEq

/-- The call sites of a report from the allocation outwards. -/
def ReachableAllocation.path (report : ReachableAllocation) : List InstId :=
  report.location :: report.context

/-- What a dataflow analysis found out about a program. -/
structure Facts where
  /-- The allocations that unsafe code can reach, in report order. -/
  reachableAllocations : List ReachableAllocation
  /-- The stack slots whose address flows into tainted values, in report order. -/
  taintedStackObjects : List InstId
  /-- The objects each pointer may point to. -/
  pointsTo : OrderedMap ValueId (List MemoryObject)
  deriving DecidableEq

namespace Facts

/-- No facts. -/
def empty : Facts := ⟨[], [], OrderedMap.empty⟩

instance : Inhabited Facts := ⟨empty⟩

/-- The objects a pointer may point to, none when nothing is known about it. -/
def objects (facts : Facts) (value : ValueId) : List MemoryObject :=
  (facts.pointsTo.get? value).getD []

/-- The facts with a reachable allocation reported last. -/
def withAllocation (facts : Facts) (location : InstId) (context : List InstId) : Facts :=
  { facts with reachableAllocations := facts.reachableAllocations ++ [⟨location, context⟩] }

/-- The facts with a tainted stack slot reported last. -/
def withTaintedStackObject (facts : Facts) (alloca : InstId) : Facts :=
  { facts with taintedStackObjects := facts.taintedStackObjects ++ [alloca] }

/-- The facts with more objects for a pointer to point to. -/
def withPointsTo (facts : Facts) (value : ValueId) (objects : List MemoryObject) : Facts :=
  { facts with pointsTo := facts.pointsTo.modify value (fun old => old.getD [] ++ objects) }

end Facts

end HeapDomains
