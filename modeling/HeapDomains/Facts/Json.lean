import HeapDomains.Facts.Basic
import HeapDomains.Json.Collections
import HeapDomains.Json.Reader

/-!
# Facts as JSON

How facts are written as JSON and read back. A memory object is written flat: its number, the kind
of its storage, and for a stack slot the instruction that makes it. Reading takes the kinds of
storage also by their position, and fills in an empty list or map where a part of the facts is
missing.
-/

namespace HeapDomains

namespace Storage

/-- The members that say where a memory object lives. -/
def members : Storage → List (String × Json)
  | stack alloca => [("kind", .str "stack"), ("alloca", alloca.json)]
  | heap => [("kind", .str "heap")]
  | global => [("kind", .str "global")]

/-- The fields of the kind of storage that a tag names. -/
def fields? : String → Option (Fields Storage)
  | "stack" => some (stack <$> .required "alloca" (.id _))
  | "heap" => some (.nothing heap)
  | "global" => some (.nothing global)
  | _ => none

/-- The names of the kinds of storage. -/
def kinds : List String := ["stack", "heap", "global"]

/-- Reads a kind of storage by its name or by its position among the kinds. -/
def kindReader : JsonReader (Fields Storage)
  | _, .string s => JsonReader.named fields? s
  | source, j => do
    match kinds[← JsonReader.natBelow kinds.length source j]?.bind fields? with
    | some fields => return fields
    | none => throw .shape

/-- Reads where a memory object lives from members that were read in full. -/
def ofMembers (members : List (JsonString × JsonDraft)) : Except ReadError Storage := do
  match ← JsonReader.single "kind" kindReader .value none members with
  | some fields => fields.ofMembers .value members .closed
  | none => throw .shape

end Storage

namespace MemoryObject

/-- A memory object as JSON. -/
def json (o : MemoryObject) : Json := .obj (("id", o.id.json) :: o.storage.members)

/-- Reads a memory object. -/
def reader : JsonReader MemoryObject
  | source, .object members ending => do
    let found ← JsonReader.single "id" (.id _) source.inner none members
    JsonReader.ended ending
    match found with
    | some id => return ⟨id, ← Storage.ofMembers members⟩
    | none => throw .shape
  | _, j => .error (JsonReader.mismatch j)

end MemoryObject

namespace ReachableAllocation

/-- A reachable allocation as JSON. -/
def json (a : ReachableAllocation) : Json :=
  .obj [("location", a.location.json), ("context", .list Id.json a.context)]

/-- Reads a reachable allocation. -/
def reader : JsonReader ReachableAllocation :=
  (ReachableAllocation.mk <$> .required "location" (.id _) <*>
    .optional "context" (.list (.id _)) [] : Fields ReachableAllocation).reader

end ReachableAllocation

namespace Facts

/-- Facts as JSON. -/
def json (f : Facts) : Json :=
  .obj [("reachable_allocations", .list ReachableAllocation.json f.reachableAllocations),
    ("tainted_stack_objects", .list Id.json f.taintedStackObjects),
    ("points_to", f.pointsTo.json (.list MemoryObject.json))]

/-- Reads facts. -/
def reader : JsonReader Facts :=
  (Facts.mk <$> .optional "reachable_allocations" (.list ReachableAllocation.reader) [] <*>
    .optional "tainted_stack_objects" (.list (.id _)) [] <*>
    .optional "points_to" (.numericMap Id.mk (.list MemoryObject.reader)) OrderedMap.empty :
    Fields Facts).reader

end Facts

end HeapDomains
