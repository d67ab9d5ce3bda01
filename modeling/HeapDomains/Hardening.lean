import HeapDomains.Program.Basic
import HeapDomains.Config.Basic

/-!
# Pointer hardening

The hardening steps a configuration asks for: masks on the addresses of smart-pointer shadow fields,
then the removal of marker loads, then masks on the pointers of stores that cross the boundary. Each
group follows the order of the program.
-/

namespace HeapDomains

/-- A change to one instruction. -/
inductive HardeningStep where
  /-- Mask the pointer operand of a store. -/
  | maskStorePointer (store : InstId) (pointer : ValueId) (mask : Word)
  /-- Mask the result of an address computation in all its uses. -/
  | maskGepResult (gep : InstId) (mask : Word)
  /-- Remove a load. -/
  | removeMarkerLoad (load : InstId)
  deriving DecidableEq

namespace HardeningStep

/-- The instruction that is changed. -/
def target : HardeningStep → InstId
  | maskStorePointer store _ _ => store
  | maskGepResult gep _ => gep
  | removeMarkerLoad load => load

/-- The mask that is applied. -/
def mask? : HardeningStep → Option Word
  | maskStorePointer _ _ mask | maskGepResult _ mask => some mask
  | removeMarkerLoad _ => none

/-- Whether the pointer of a store is masked. -/
def isStoreMask : HardeningStep → Bool
  | maskStorePointer .. => true
  | _ => false

/-- Whether the result of an address computation is masked. -/
def isGepMask : HardeningStep → Bool
  | maskGepResult .. => true
  | _ => false

/-- Whether a load is removed. -/
def isLoadRemoval : HardeningStep → Bool
  | removeMarkerLoad _ => true
  | _ => false

/-- The mask on the address of a smart-pointer shadow field. -/
def ofShadow? (mask : Word) (inst : Instruction) : Option HardeningStep :=
  match inst.kind with
  | .getElementPtr =>
    if inst.hasMark .smartPointerShadow then some (.maskGepResult inst.id mask) else none
  | _ => none

/-- The removal of a marker load. -/
def ofMarkerLoad? (inst : Instruction) : Option HardeningStep :=
  match inst.kind with
  | .load => if inst.hasMark .markerLoad then some (.removeMarkerLoad inst.id) else none
  | _ => none

/-- The mask on the pointer of a store that crosses the boundary, unless the pointer is a global. -/
def ofBoundaryStore? (mask : Word) (inst : Instruction) : Option HardeningStep :=
  match inst.kind with
  | .store pointer pointerIsGlobal =>
    if !pointerIsGlobal && inst.crossesBoundary then some (.maskStorePointer inst.id pointer mask)
    else none
  | _ => none

end HardeningStep

/-- The hardening steps of a program, in the order in which they are taken. -/
def HardeningConfig.steps (c : HardeningConfig) (p : Program) : List HardeningStep :=
  (if c.maskSmartPointerShadows then
    p.instructions.filterMap (HardeningStep.ofShadow? c.pointerMask) else []) ++
  (if c.removeMarkerLoads then p.instructions.filterMap HardeningStep.ofMarkerLoad? else []) ++
  (if c.maskUnsafeStores then
    p.instructions.filterMap (HardeningStep.ofBoundaryStore? c.pointerMask) else [])

end HeapDomains
