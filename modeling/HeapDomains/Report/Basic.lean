import HeapDomains.Flag.Planner
import HeapDomains.Hardening

/-!
# Reports

A run classifies the facts, builds the call paths, plans the flag register and lists the hardening
steps; `Program.analyse` does so in this order and ends at the first contradiction. The report holds
what a code generator needs, and the numbers of it.
-/

namespace HeapDomains

/-- The numbers of a report. -/
structure ReportStats where
  /-- Functions with a flag plan. -/
  functionsInstrumented : Nat
  /-- Slots of guarded call sites. -/
  slots : Nat
  /-- Functions that load the flag. -/
  entryReads : Nat
  /-- Constants stored before entry call sites. -/
  entryStores : Nat
  /-- Resets after guarded call sites. -/
  resets : Nat
  /-- Stack slots that have to move. -/
  relocations : Nat
  /-- Pointers that cross the boundary. -/
  boundaryPointers : Nat
  /-- Hardening steps. -/
  hardeningSteps : Nat
  deriving DecidableEq

/-- The outcome of a run. -/
structure Report where
  /-- What the functions do with the flag register. -/
  plan : FlagPlan
  /-- The stack slots that have to move, with the reasons. -/
  relocations : OrderedMap InstId (OrderedSet RelocationReason)
  /-- The pointers that cross the boundary. -/
  boundaryPointers : OrderedSet ValueId
  /-- The call sites on some path. -/
  exposedCallSites : OrderedSet InstId
  /-- The call sites where a path ends. -/
  entries : OrderedSet InstId
  /-- The call sites that need no flag management. -/
  exempt : OrderedSet InstId
  /-- The call sites that occur in a calling context. -/
  heapMoves : OrderedSet InstId
  /-- The functions that call sites on some path are known to call. -/
  callees : OrderedMap InstId FunctionId
  /-- The functions entered through call sites of unknown target. -/
  indirectTargets : OrderedMap InstId (OrderedSet FunctionId)
  /-- The functions entered through some call site of unknown target. -/
  indirectlyReached : OrderedSet FunctionId
  /-- The hardening steps in the order in which they are taken. -/
  hardening : List HardeningStep
  /-- The numbers of the report. -/
  stats : ReportStats
  deriving DecidableEq

namespace Report

/-- Whether a stack slot has to move. -/
def isRelocated (r : Report) (alloca : InstId) : Bool := r.relocations.contains alloca

/-- The report on what the stages of a run found. -/
def ofStages (c : Classification) (g : CallPathGraph) (plan : FlagPlan)
    (steps : List HardeningStep) : Report where
  plan := plan
  relocations := c.relocations
  boundaryPointers := c.boundaryPointers
  exposedCallSites := g.callSites
  entries := g.entries
  exempt := g.exempt
  heapMoves := g.heapMoves
  callees := OrderedMap.ofList
    (g.callSites.toList.filterMap fun site => (g.callee? site).map fun callee => (site, callee))
  indirectTargets := g.indirectTargets
  indirectlyReached := g.indirectlyReached
  hardening := steps
  stats := {
    functionsInstrumented := plan.functionCount
    slots := plan.slotCount
    entryReads := plan.entryReadCount
    entryStores := plan.entryStoreCount
    resets := plan.resetCount
    relocations := c.relocations.size
    boundaryPointers := c.boundaryPointers.size
    hardeningSteps := steps.length }

end Report

/-- Runs the analysis on a program and the facts about it. The configuration is taken as it is;
`PassConfig.validated` is the test it should have passed. -/
def Program.analyse (p : Program) (config : PassConfig) (facts : Facts) :
    Except InvariantViolation Report := do
  let c ← Classification.ofFacts p facts
  let g ← CallPathGraph.build p config c
  let plan ← planFlags p config g
  return Report.ofStages c g plan (config.hardening.steps p)

end HeapDomains
