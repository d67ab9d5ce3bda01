import HeapDomains.Id
import HeapDomains.Json.Basic
import HeapDomains.Ordered.Map
import HeapDomains.Word

/-!
# Numbers and collections as JSON

Entities and words are written as numbers, sets as ascending lists, and maps as objects whose
members are named by the number of the key.
-/

namespace HeapDomains

/-- The number of an entity as JSON. -/
def Id.json {k : IdKind} (i : Id k) : Json := .nat i.toNat

/-- A word as JSON. -/
def Word.json (w : Word) : Json := .nat w.toNat

/-- A set as JSON. -/
def OrderedSet.json {α : Type} [Ranked α] (f : α → Json) (s : OrderedSet α) : Json :=
  .list f s.toList

/-- A map from entities as JSON. -/
def OrderedMap.json {k : IdKind} {ν : Type} (f : ν → Json) (m : OrderedMap (Id k) ν) : Json :=
  .obj (m.entries.map fun (key, value) => (toString key.toNat, f value))

end HeapDomains
