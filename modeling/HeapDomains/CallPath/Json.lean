import HeapDomains.CallPath.Graph
import HeapDomains.Json.Collections
import HeapDomains.Json.Reader

/-!
# Flag records as JSON

How a flag record is written as JSON and read back. All fields have to be given.
-/

namespace HeapDomains

namespace FlagRecord

/-- A flag record as JSON. -/
def json (r : FlagRecord) : Json :=
  .obj [("function", r.function.json), ("call_sites", .list Id.json r.callSites),
    ("arg_bits", r.argBits.json (OrderedSet.json .nat))]

/-- Reads a bit. -/
def bitReader : JsonReader Nat := .natBelow UInt32.size

/-- Reads a flag record. -/
def reader : JsonReader FlagRecord :=
  (FlagRecord.mk <$> .required "function" (.id _) <*> .required "call_sites" (.list (.id _)) <*>
    .required "arg_bits" (.numericMap Id.mk fun source j =>
      (JsonReader.list bitReader source j).map OrderedSet.ofList) : Fields FlagRecord).reader

end FlagRecord

end HeapDomains
