import HeapDomains.CallPath.Build
import HeapDomains.Flag.Plan

/-!
# Planning the flag register

The flag plan of a call-path graph. A guarded call site gets a slot, a store of the slot before the
call and a reset after it; an entry gets a store of its argument mask; an exempt call site gets
nothing. The flag is loaded where a slot depends on it, or everywhere when the configuration asks
for that.
-/

namespace HeapDomains

/-- A flagged call site with all that its plan depends on. -/
structure PlannedSite where
  /-- The call site. -/
  site : CallSite
  /-- Its flag bit. -/
  bit : Nat
  /-- Its role. -/
  role : CallSiteRole
  /-- The bits it raises. -/
  argMask : Word
  deriving DecidableEq

namespace PlannedSite

/-- Whether the call site passes the flag on. -/
def isGuarded (s : PlannedSite) : Bool := s.role == .guarded

/-- Where the flag is cleared after the call. -/
def resetPoint (s : PlannedSite) : ResetPoint :=
  match s.site.flavor with
  | .plain => .afterCall s.site.id
  | .invoke normalDest => .blockStart normalDest

end PlannedSite

/-- The call sites of a record with their bits, looked up in the program and in the graph. -/
def planSites (p : Program) (g : CallPathGraph) (r : FlagRecord) :
    List (InstId × Nat) → Except InvariantViolation (List PlannedSite)
  | [] => .ok []
  | (id, bit) :: rest => do
    let site ← p.callSite id
    let role ← g.role id
    let sites ← planSites p g r rest
    return ⟨site, bit, role, r.argMask id⟩ :: sites

/-- The slots of the guarded call sites, numbered from `first` on. -/
def planSlots (first : Nat) : List PlannedSite → List ScratchSlot
  | [] => []
  | s :: rest =>
    if s.isGuarded then ⟨first, s.site.id, s.bit, s.argMask⟩ :: planSlots (first + 1) rest
    else planSlots first rest

/-- The stores and resets of the call sites, where the slots are numbered from `first` on. -/
def planStores (first : Nat) : List PlannedSite → List FlagOp
  | [] => []
  | s :: rest =>
    match s.role with
    | .exempt => planStores first rest
    | .entry => .storeConstant s.site.id s.argMask :: planStores first rest
    | .guarded =>
      .storeSlot s.site.id first :: .reset s.site.id s.resetPoint :: planStores (first + 1) rest

/-- The plan of a function from its flagged call sites. -/
def planOf (config : PassConfig) (function : Function) (sites : List PlannedSite) : FunctionPlan :=
  let slots := planSlots 0 sites
  let reads := !slots.isEmpty || !config.skipUnusedEntryRead
  { function := function.id
    entryBlock := function.entryBlock
    readsEntryFlag := reads
    slots := slots
    ops := (if reads then [.readEntryFlag function.entryBlock] else []) ++
      slots.map (fun s => .computeSlot s.id s.callSite s.bit s.argMask) ++ planStores 0 sites }

/-- The plan of the function of a flag record. -/
def planFunction (p : Program) (config : PassConfig) (g : CallPathGraph) (r : FlagRecord) :
    Except InvariantViolation FunctionPlan := do
  let function ← p.function r.function
  let sites ← planSites p g r r.callSites.zipIdx
  return planOf config function sites

/-- The plans of the functions of some flag records, one after the other. -/
def planRecords {ε : Type} (plan : FlagRecord → Except ε FunctionPlan) :
    List FlagRecord → Except ε (OrderedMap FunctionId FunctionPlan)
  | [] => .ok OrderedMap.empty
  | r :: rest => do
    let f ← plan r
    let plans ← planRecords plan rest
    return plans.insert r.function f

/-- The flag plan of a program for its call-path graph. -/
def planFlags (p : Program) (config : PassConfig) (g : CallPathGraph) :
    Except InvariantViolation FlagPlan := do
  let functions ← planRecords (planFunction p config g) g.records.values
  return ⟨config.flagSymbol, config.typeTagSymbol, functions⟩

/-! ## Checked shifts

A program may be compiled with shifts that are checked. One by more bits than a word has halts it
then, and no plan and no error is returned.
-/

/-- Why planning ends without a plan where shifts are checked. -/
inductive PlanStop where
  /-- A record does not fit the program and the graph. -/
  | violation (v : InvariantViolation)
  /-- An argument mask has a bit that words do not have. -/
  | overflow
  deriving DecidableEq

/-- Whether the mask of a call site that is guarded or an entry has a bit that words do not have. -/
def CallPathGraph.overflows (g : CallPathGraph) (r : FlagRecord) : Bool :=
  r.callSites.any fun s =>
    match g.role s with
    | .ok .exempt => false
    | .ok .guarded | .ok .entry | .error _ => r.overflows s

/-- The plan of the function of a flag record where shifts are checked. No mask is computed before
every call site has been looked up. -/
def planFunctionChecked (p : Program) (config : PassConfig) (g : CallPathGraph) (r : FlagRecord) :
    Except PlanStop FunctionPlan := do
  let f ← (planFunction p config g r).mapError .violation
  if g.overflows r then .error .overflow else return f

/-- The flag plan of a program for its call-path graph where shifts are checked. -/
def planFlagsChecked (p : Program) (config : PassConfig) (g : CallPathGraph) :
    Except PlanStop FlagPlan := do
  let functions ← planRecords (planFunctionChecked p config g) g.records.values
  return ⟨config.flagSymbol, config.typeTagSymbol, functions⟩

end HeapDomains
