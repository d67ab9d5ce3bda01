import HeapDomains.Allocator.Slot

/-!
# Allocation errors

Why a heap cannot be had, a claim not be served, or an initialization not be finished. A program
that allocates never sees them: a failed allocation is the null pointer.
-/

namespace HeapDomains

/-- Why an allocator fails. -/
inductive RuntimeError where
  /-- No heap could be made for a slot. -/
  | heapCreation (slot : DomainSlot)
  /-- A request does not fit the free part of the bootstrap buffer. -/
  | bootstrap (requested capacity : Nat)
  /-- The allocator is used in a way that is not provided for. -/
  | config (reason : String)
  deriving DecidableEq

namespace RuntimeError

/-- The name of the kind of error. -/
def kind : RuntimeError → String
  | heapCreation _ => "heap_creation"
  | bootstrap _ _ => "bootstrap"
  | config _ => "config"

/-- The wording of the error without its kind. -/
def reason : RuntimeError → String
  | heapCreation slot => "heap primitive returned no heap for " ++ toString slot
  | bootstrap requested capacity =>
    "request of " ++ toString requested ++ " bytes exceeds bootstrap buffer of " ++
      toString capacity ++ " bytes"
  | config reason => reason

/-- The wording of the error. -/
def message (e : RuntimeError) : String := "[" ++ e.kind ++ "] " ++ e.reason

end RuntimeError

end HeapDomains
