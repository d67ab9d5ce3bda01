import HeapDomains.Flag.Plan
import HeapDomains.Json.Collections

/-!
# Flag plans as JSON

How a flag plan is written as JSON. Operations and reset points carry a tag that says of which kind
they are.
-/

namespace HeapDomains

/-- A reset point as JSON. -/
def ResetPoint.json : ResetPoint → Json
  | afterCall site => .obj [("at", .str "after_call"), ("call_site", site.json)]
  | blockStart block => .obj [("at", .str "block_start"), ("block", block.json)]

/-- An operation as JSON. -/
def FlagOp.json : FlagOp → Json
  | readEntryFlag block => .obj [("op", .str "read_entry_flag"), ("block", block.json)]
  | computeSlot slot site bit argMask =>
    .obj [("op", .str "compute_slot"), ("slot", .nat slot), ("call_site", site.json),
      ("bit", .nat bit), ("arg_mask", argMask.json)]
  | storeSlot site slot =>
    .obj [("op", .str "store_slot"), ("call_site", site.json), ("slot", .nat slot)]
  | reset site point =>
    .obj [("op", .str "reset"), ("call_site", site.json), ("at", point.json)]
  | storeConstant site value =>
    .obj [("op", .str "store_constant"), ("call_site", site.json), ("value", value.json)]

/-- A slot as JSON. -/
def ScratchSlot.json (s : ScratchSlot) : Json :=
  .obj [("id", .nat s.id), ("call_site", s.callSite.json), ("bit", .nat s.bit),
    ("arg_mask", s.argMask.json)]

/-- The plan of a function as JSON. -/
def FunctionPlan.json (f : FunctionPlan) : Json :=
  .obj [("function", f.function.json), ("entry_block", f.entryBlock.json),
    ("reads_entry_flag", .bool f.readsEntryFlag), ("slots", .list ScratchSlot.json f.slots),
    ("ops", .list FlagOp.json f.ops)]

/-- A flag plan as JSON. -/
def FlagPlan.json (plan : FlagPlan) : Json :=
  .obj [("flag_symbol", .str plan.flagSymbol), ("type_tag_symbol", .str plan.typeTagSymbol),
    ("functions", plan.functions.json FunctionPlan.json)]

end HeapDomains
