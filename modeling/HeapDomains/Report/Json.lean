import HeapDomains.Flag.Json
import HeapDomains.Report.Basic

/-!
# Reports as JSON

How the report on a run is written as JSON.
-/

namespace HeapDomains

/-- A hardening step as JSON. -/
def HardeningStep.json : HardeningStep → Json
  | maskStorePointer store pointer mask =>
    .obj [("rewrite", .str "mask_store_pointer"), ("store", store.json), ("pointer", pointer.json),
      ("mask", mask.json)]
  | maskGepResult gep mask =>
    .obj [("rewrite", .str "mask_gep_result"), ("gep", gep.json), ("mask", mask.json)]
  | removeMarkerLoad load => .obj [("rewrite", .str "remove_marker_load"), ("load", load.json)]

/-- A reason for moving a stack slot as JSON. -/
def RelocationReason.json (r : RelocationReason) : Json := .str r.name

/-- The numbers of a report as JSON. -/
def ReportStats.json (s : ReportStats) : Json :=
  .obj [("functions_instrumented", .nat s.functionsInstrumented), ("slots", .nat s.slots),
    ("entry_reads", .nat s.entryReads), ("entry_stores", .nat s.entryStores),
    ("resets", .nat s.resets), ("relocations", .nat s.relocations),
    ("unsafe_pointers", .nat s.boundaryPointers), ("rewrites", .nat s.hardeningSteps)]

/-- A report as JSON. -/
def Report.json (r : Report) : Json :=
  .obj [("plan", r.plan.json),
    ("relocations", r.relocations.json (OrderedSet.json RelocationReason.json)),
    ("unsafe_pointers", r.boundaryPointers.json Id.json),
    ("unsafe_call_sites", r.exposedCallSites.json Id.json), ("entries", r.entries.json Id.json),
    ("exempt", r.exempt.json Id.json), ("heap_moves", r.heapMoves.json Id.json),
    ("callees", r.callees.json Id.json),
    ("indirect_targets", r.indirectTargets.json (OrderedSet.json Id.json)),
    ("indirectly_reached", r.indirectlyReached.json Id.json),
    ("rewrites", .list HardeningStep.json r.hardening), ("stats", r.stats.json)]

end HeapDomains
