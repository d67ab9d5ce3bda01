import HeapDomains.Config.Document
import HeapDomains.Yaml.Render
import HeapDomains.Yaml.Value

/-!
# Configuration files

How configuration documents are read from YAML, and how settings are written as a document that
gives every one of them.
-/

namespace HeapDomains

open Yaml (Node readField boolText)

/-- The hardening fields that a node gives. -/
def HardeningOverrides.ofNode? (node : Node) : Option HardeningOverrides := do
  let fields ← node.fields?
    ["mask_unsafe_stores", "mask_smart_pointer_shadows", "remove_marker_loads", "pointer_mask"]
  let maskUnsafeStores ← readField fields "mask_unsafe_stores" Node.bool?
  let maskSmartPointerShadows ← readField fields "mask_smart_pointer_shadows" Node.bool?
  let removeMarkerLoads ← readField fields "remove_marker_loads" Node.bool?
  let pointerMask ← readField fields "pointer_mask" fun node =>
    (node.nat? wordLimit).map (BitVec.ofNat 64)
  some { maskUnsafeStores, maskSmartPointerShadows, removeMarkerLoads, pointerMask }

/-- The fields of a configuration that a node gives. -/
def PassOverrides.ofNode? (node : Node) : Option PassOverrides := do
  let fields ← node.fields?
    ["max_flag_bits", "exemption", "skip_unused_entry_read", "hardening", "flag_symbol",
      "type_tag_symbol"]
  let maxFlagBits ← readField fields "max_flag_bits" fun node =>
    (node.nat? UInt32.size).map UInt32.ofNat
  let exemption ← readField fields "exemption" fun node => node.name?.bind Exemption.ofName?
  let skipUnusedEntryRead ← readField fields "skip_unused_entry_read" Node.bool?
  let hardening ← readField fields "hardening" HardeningOverrides.ofNode?
  let flagSymbol ← readField fields "flag_symbol" Node.text?
  let typeTagSymbol ← readField fields "type_tag_symbol" Node.text?
  some { maxFlagBits, exemption, skipUnusedEntryRead, hardening, flagSymbol, typeTagSymbol }

namespace ConfigDocument

/-- The document that a node describes. -/
def ofNode? (node : Node) : Option ConfigDocument := do
  let fields ← node.fields? ["version", "preset", "overrides"]
  let version ← readField fields "version" fun node =>
    (node.nat? UInt32.size).map UInt32.ofNat
  let preset ← readField fields "preset" Node.text?
  let overrides ← readField fields "overrides" PassOverrides.ofNode?
  some { version, preset, overrides }

/-- The document that a text holds. -/
def ofYaml (text : String) : Except ConfigError ConfigDocument :=
  match (Node.ofText? text).bind ofNode? with
  | some document => .ok document
  | none => .error .malformed

end ConfigDocument

namespace PassConfig

/-- The valid settings that the text of a configuration file describes. -/
def ofYaml (text : String) : Except ConfigError PassConfig :=
  (ConfigDocument.ofYaml text).bind ofDocument

/-- A line with a key and a short value. -/
def yamlLine (columns : Nat) (key value : String) : List Char :=
  List.replicate columns ' ' ++ key.toList ++ ": ".toList ++ value.toList ++ ['\n']

/-- A line with a key whose fields follow it. -/
def yamlHead (columns : Nat) (key : String) : List Char :=
  List.replicate columns ' ' ++ key.toList ++ [':', '\n']

/-- The lines of a key with a symbol. -/
def yamlSymbol (key symbol : String) : List Char :=
  "  ".toList ++ key.toList ++ ": ".toList ++ Yaml.renderScalar 4 symbol

/-- The settings as the text of a configuration file. -/
def yaml (c : PassConfig) : String :=
  String.ofList
    (yamlLine 0 "version" "1" ++ yamlLine 0 "preset" c.preset.name ++ yamlHead 0 "overrides" ++
      yamlLine 2 "max_flag_bits" (toString c.maxFlagBits.toNat) ++
      yamlLine 2 "exemption" c.exemption.name ++
      yamlLine 2 "skip_unused_entry_read" (boolText c.skipUnusedEntryRead) ++
      yamlHead 2 "hardening" ++
      yamlLine 4 "mask_unsafe_stores" (boolText c.hardening.maskUnsafeStores) ++
      yamlLine 4 "mask_smart_pointer_shadows" (boolText c.hardening.maskSmartPointerShadows) ++
      yamlLine 4 "remove_marker_loads" (boolText c.hardening.removeMarkerLoads) ++
      yamlLine 4 "pointer_mask" (toString c.hardening.pointerMask.toNat) ++
      yamlSymbol "flag_symbol" c.flagSymbol ++ yamlSymbol "type_tag_symbol" c.typeTagSymbol)

end PassConfig

end HeapDomains
