import HeapDomains.Classification
import HeapDomains.Config.Basic
import HeapDomains.CallPath.Graph

/-!
# Call paths of a classification

The graph of the calling contexts of all exposed allocations. Each allocation is walked from its
location outwards: every call site gets a node and a flag bit in the record of its function, every
step outwards an edge, and the call site the walk ends at becomes an entry. An allocation raises
bit 0 of what it calls, a context call site the bit of the call site one level further in.
-/

namespace HeapDomains

namespace CallPathGraph

/-- Gives a call site a node and a flag bit, and adds a bit to those it raises. -/
def register (max : UInt32) (g : CallPathGraph) (site : CallSite) (argBit : Nat) :
    Except InvariantViolation CallPathGraph :=
  match (g.ensureNode site.id site.function).1.assign site.function site.id max with
  | (_, .error violation) => .error violation
  | (g, .ok _) => .ok (g.addArgBit site.function site.id argBit)

/-- The flag bit of a call site, zero when it has none. -/
def bitOf (g : CallPathGraph) (site : CallSite) : Nat :=
  ((g.record? site.function).bind (·.bit? site.id)).getD 0

/-- Notes what a context call site calls: its known callee, or the function that holds the call site
one level further in. -/
def recordCall (g : CallPathGraph) (inner outer : CallSite) : CallPathGraph :=
  match outer.target with
  | .direct callee => g.recordCallee outer.id callee
  | .indirect => g.recordIndirectTarget outer.id inner.function

/-- Adds the step from a registered call site to the one further out. -/
def addLevel (max : UInt32) (g : CallPathGraph) (inner outer : CallSite) :
    Except InvariantViolation CallPathGraph := do
  let g ← g.register max outer (g.bitOf inner)
  let g ← g.link inner.id outer.id
  return (g.markHeapMove outer.id).recordCall inner outer

/-- Adds the steps of a calling context outwards from a registered call site, and makes the last
call site an entry. -/
def addContext (p : Program) (max : UInt32) (g : CallPathGraph) (inner : CallSite) :
    List InstId → Except InvariantViolation CallPathGraph
  | [] => .ok (g.markEntry inner.id)
  | level :: rest => do
    let outer ← p.callSite level
    let g ← g.addLevel max inner outer
    addContext p max g outer rest

/-- Notes the function that an allocation is known to call. -/
def recordAllocator (g : CallPathGraph) (site : CallSite) : CallPathGraph :=
  match site.callee? with
  | some callee => g.recordCallee site.id callee
  | none => g

/-- Adds the path of an exposed allocation. -/
def addPath (p : Program) (max : UInt32) (g : CallPathGraph) (site : AllocationSite) :
    Except InvariantViolation CallPathGraph := do
  let alloc ← p.callSite site.callSite
  -- Bit 0 stands for what the allocation itself calls.
  let g ← g.register max alloc 0
  addContext p max (g.recordAllocator alloc) alloc site.context

/-- Exempts call sites by a strategy. -/
def exemptBy (g : CallPathGraph) : Exemption → CallPathGraph
  | .descendants => g.setExempt g.descendantsOfEntries
  | .disabled => g.setExempt OrderedSet.empty

/-- The call paths of all exposed allocations of a classification. -/
def build (p : Program) (config : PassConfig) (c : Classification) :
    Except InvariantViolation CallPathGraph := do
  let g ← c.allocations.foldlM (addPath p config.maxFlagBits) empty
  return g.exemptBy config.exemption

end CallPathGraph

end HeapDomains
