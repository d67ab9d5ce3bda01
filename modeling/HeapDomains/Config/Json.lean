import HeapDomains.Config.Basic
import HeapDomains.Json.Collections
import HeapDomains.Json.Reader

/-!
# Settings as JSON

How the settings of a run are written as JSON and read back. The preset is not written; settings
that are read start from the standard preset, which also gives every field that is missing.
-/

namespace HeapDomains

namespace HardeningConfig

/-- The hardening as JSON. -/
def json (c : HardeningConfig) : Json :=
  .obj [("mask_unsafe_stores", .bool c.maskUnsafeStores),
    ("mask_smart_pointer_shadows", .bool c.maskSmartPointerShadows),
    ("remove_marker_loads", .bool c.removeMarkerLoads), ("pointer_mask", c.pointerMask.json)]

/-- Reads the hardening. -/
def reader : JsonReader HardeningConfig :=
  (HardeningConfig.mk <$> .optional "mask_unsafe_stores" .bool standard.maskUnsafeStores <*>
    .optional "mask_smart_pointer_shadows" .bool standard.maskSmartPointerShadows <*>
    .optional "remove_marker_loads" .bool standard.removeMarkerLoads <*>
    .optional "pointer_mask" .word standard.pointerMask : Fields HardeningConfig).reader

end HardeningConfig

namespace PassConfig

/-- The settings as JSON. -/
def json (c : PassConfig) : Json :=
  .obj [("max_flag_bits", .nat c.maxFlagBits.toNat), ("exemption", .str c.exemption.name),
    ("skip_unused_entry_read", .bool c.skipUnusedEntryRead), ("hardening", c.hardening.json),
    ("flag_symbol", .str c.flagSymbol), ("type_tag_symbol", .str c.typeTagSymbol)]

/-- The settings of the standard preset with all fields replaced. -/
def ofFields (maxFlagBits : UInt32) (exemption : Exemption) (skipUnusedEntryRead : Bool)
    (hardening : HardeningConfig) (flagSymbol typeTagSymbol : String) : PassConfig :=
  ⟨maxFlagBits, exemption, skipUnusedEntryRead, hardening, flagSymbol, typeTagSymbol, .standard⟩

/-- Reads the settings. -/
def reader : JsonReader PassConfig :=
  (ofFields <$> .optional "max_flag_bits" .uint32 standard.maxFlagBits <*>
    .optional "exemption" (.name Exemption.ofName?) standard.exemption <*>
    .optional "skip_unused_entry_read" .bool standard.skipUnusedEntryRead <*>
    .optional "hardening" HardeningConfig.reader standard.hardening <*>
    .optional "flag_symbol" .string standard.flagSymbol <*>
    .optional "type_tag_symbol" .string standard.typeTagSymbol : Fields PassConfig).reader

end PassConfig

end HeapDomains
