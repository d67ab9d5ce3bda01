import HeapDomains.Ordered.Map
import HeapDomains.Id
import HeapDomains.Word

/-!
# Flag plans

What the code of a function has to do with the flag register, as a list of operations that a code
generator places:

```text
entry block:  e = flag                          readEntryFlag
              s = bit b of e ? mask : 0         computeSlot
before c:     flag = s                          storeSlot
after c:      flag = 0                          reset
before c:     flag = mask                       storeConstant
```
-/

namespace HeapDomains

/-- Where the flag is cleared after a call. -/
inductive ResetPoint where
  /-- Right after the call instruction. -/
  | afterCall (site : InstId)
  /-- At the start of the block that a normal return continues with. -/
  | blockStart (block : BlockId)
  deriving DecidableEq

/-- One thing to do with the flag register. -/
inductive FlagOp where
  /-- Load the flag once, in the entry block. -/
  | readEntryFlag (block : BlockId)
  /-- Compute the value of a slot: the mask when the bit of the loaded flag is set, else zero. -/
  | computeSlot (slot : Nat) (site : InstId) (bit : Nat) (argMask : Word)
  /-- Store a slot into the flag right before a call. -/
  | storeSlot (site : InstId) (slot : Nat)
  /-- Store zero into the flag once a call has returned normally. -/
  | reset (site : InstId) (point : ResetPoint)
  /-- Store a constant into the flag right before a call. -/
  | storeConstant (site : InstId) (value : Word)
  deriving DecidableEq

namespace FlagOp

/-- The call site an operation belongs to; loading the flag belongs to none. -/
def site? : FlagOp → Option InstId
  | readEntryFlag _ => none
  | computeSlot _ site _ _ | storeSlot site _ | reset site _ | storeConstant site _ => some site

/-- The constant that is stored before a call. -/
def constantFor? (site : InstId) : FlagOp → Option Word
  | storeConstant s value => if s = site then some value else none
  | _ => none

/-- The point at which the flag is cleared after a call. -/
def resetFor? (site : InstId) : FlagOp → Option ResetPoint
  | reset s point => if s = site then some point else none
  | _ => none

/-- Whether an operation stores a constant. -/
def isStoreConstant : FlagOp → Bool
  | storeConstant .. => true
  | _ => false

/-- Whether an operation clears the flag. -/
def isReset : FlagOp → Bool
  | reset .. => true
  | _ => false

end FlagOp

/-- The slot of a guarded call site. -/
structure ScratchSlot where
  /-- Its position among the slots of the function. -/
  id : Nat
  /-- The call site. -/
  callSite : InstId
  /-- The flag bit of the call site. -/
  bit : Nat
  /-- The bits the call site raises. -/
  argMask : Word
  deriving DecidableEq

/-- What one function does with the flag register. -/
structure FunctionPlan where
  /-- The function. -/
  function : FunctionId
  /-- The block it starts with. -/
  entryBlock : BlockId
  /-- Whether it loads the flag. -/
  readsEntryFlag : Bool
  /-- The slots of its guarded call sites. -/
  slots : List ScratchSlot
  /-- The operations in the order in which they are placed. -/
  ops : List FlagOp
  deriving DecidableEq

namespace FunctionPlan

/-- The slot of a call site. -/
def slotFor? (f : FunctionPlan) (site : InstId) : Option ScratchSlot :=
  f.slots.find? (fun s => s.callSite == site)

/-- The constant that is stored before a call. -/
def entryConstant? (f : FunctionPlan) (site : InstId) : Option Word :=
  f.ops.findSome? (FlagOp.constantFor? site)

/-- The points at which the flag is cleared after a call. -/
def resetsFor (f : FunctionPlan) (site : InstId) : List ResetPoint :=
  f.ops.filterMap (FlagOp.resetFor? site)

/-- Whether any operation belongs to a call site. -/
def touches (f : FunctionPlan) (site : InstId) : Bool := f.ops.any (fun op => op.site? == some site)

end FunctionPlan

/-- What the functions of a program do with the flag register. -/
structure FlagPlan where
  /-- The symbol of the flag register. -/
  flagSymbol : String
  /-- The symbol of the type-tag register. -/
  typeTagSymbol : String
  /-- The plans of the functions with flagged call sites. -/
  functions : OrderedMap FunctionId FunctionPlan
  deriving DecidableEq

namespace FlagPlan

/-- The plan of a function. -/
def function? (plan : FlagPlan) (function : FunctionId) : Option FunctionPlan :=
  plan.functions.get? function

/-- The number of functions with a plan. -/
def functionCount (plan : FlagPlan) : Nat := plan.functions.size

/-- The number of slots in all functions. -/
def slotCount (plan : FlagPlan) : Nat := (plan.functions.values.flatMap (·.slots)).length

/-- The number of operations that pass a test in all functions. -/
def countOps (plan : FlagPlan) (p : FlagOp → Bool) : Nat :=
  (plan.functions.values.flatMap (·.ops)).countP p

/-- The number of constants stored before a call. -/
def entryStoreCount (plan : FlagPlan) : Nat := plan.countOps FlagOp.isStoreConstant

/-- The number of times the flag is cleared. -/
def resetCount (plan : FlagPlan) : Nat := plan.countOps FlagOp.isReset

/-- The number of functions that load the flag. -/
def entryReadCount (plan : FlagPlan) : Nat := plan.functions.values.countP (·.readsEntryFlag)

end FlagPlan

end HeapDomains
