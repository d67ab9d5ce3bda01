import HeapDomains.Config.Basic

/-!
# Configuration documents

A document names a version of the format, a preset and the fields that differ from it.
`ConfigDocument.settings` lays the fields over the preset, `PassConfig.ofDocument` also validates
the outcome, and `PassConfig.toDocument` writes every field, so that a document made from valid
settings gives them back.
-/

namespace HeapDomains

/-- The hardening fields that differ from a preset. -/
structure HardeningOverrides where
  /-- Replaces `HardeningConfig.maskUnsafeStores`. -/
  maskUnsafeStores : Option Bool := none
  /-- Replaces `HardeningConfig.maskSmartPointerShadows`. -/
  maskSmartPointerShadows : Option Bool := none
  /-- Replaces `HardeningConfig.removeMarkerLoads`. -/
  removeMarkerLoads : Option Bool := none
  /-- Replaces `HardeningConfig.pointerMask`. -/
  pointerMask : Option Word := none
  deriving DecidableEq

/-- The hardening with the given fields replaced. -/
def HardeningConfig.override (c : HardeningConfig) (o : HardeningOverrides) : HardeningConfig where
  maskUnsafeStores := o.maskUnsafeStores.getD c.maskUnsafeStores
  maskSmartPointerShadows := o.maskSmartPointerShadows.getD c.maskSmartPointerShadows
  removeMarkerLoads := o.removeMarkerLoads.getD c.removeMarkerLoads
  pointerMask := o.pointerMask.getD c.pointerMask

/-- The fields of a configuration that differ from a preset. -/
structure PassOverrides where
  /-- Replaces `PassConfig.maxFlagBits`. -/
  maxFlagBits : Option UInt32 := none
  /-- Replaces `PassConfig.exemption`. -/
  exemption : Option Exemption := none
  /-- Replaces `PassConfig.skipUnusedEntryRead`. -/
  skipUnusedEntryRead : Option Bool := none
  /-- Replaces fields of `PassConfig.hardening`. -/
  hardening : Option HardeningOverrides := none
  /-- Replaces `PassConfig.flagSymbol`. -/
  flagSymbol : Option String := none
  /-- Replaces `PassConfig.typeTagSymbol`. -/
  typeTagSymbol : Option String := none
  deriving DecidableEq

/-- The settings with the given fields replaced. -/
def PassConfig.override (c : PassConfig) (o : PassOverrides) : PassConfig where
  maxFlagBits := o.maxFlagBits.getD c.maxFlagBits
  exemption := o.exemption.getD c.exemption
  skipUnusedEntryRead := o.skipUnusedEntryRead.getD c.skipUnusedEntryRead
  hardening := c.hardening.override (o.hardening.getD {})
  flagSymbol := o.flagSymbol.getD c.flagSymbol
  typeTagSymbol := o.typeTagSymbol.getD c.typeTagSymbol
  preset := c.preset

/-- A configuration as it is written down. -/
structure ConfigDocument where
  /-- The version of the format. -/
  version : Option UInt32 := none
  /-- The name of the preset to start from. -/
  preset : Option String := none
  /-- The fields that differ from the preset. -/
  overrides : Option PassOverrides := none
  deriving DecidableEq

namespace ConfigDocument

/-- The versions of the format that are read. -/
def supportedVersions : List UInt32 := [1]

/-- The preset a document starts from, `standard` when it names none. -/
def base (d : ConfigDocument) : Except ConfigError Preset :=
  match d.preset with
  | none => .ok .standard
  | some name => Preset.ofName name

/-- The settings a document describes, not yet validated. -/
def settings (d : ConfigDocument) : Except ConfigError PassConfig :=
  match d.version with
  | none => .error .missingVersion
  | some version =>
    if version ∈ supportedVersions then
      (d.base).map fun preset => (PassConfig.ofPreset preset).override (d.overrides.getD {})
    else .error (.unsupportedVersion version supportedVersions)

end ConfigDocument

namespace PassConfig

/-- The valid settings a document describes. -/
def ofDocument (d : ConfigDocument) : Except ConfigError PassConfig :=
  d.settings.bind validated

/-- The document that writes down every setting. -/
def toDocument (c : PassConfig) : ConfigDocument where
  version := some 1
  preset := some c.preset.name
  overrides := some {
    maxFlagBits := some c.maxFlagBits
    exemption := some c.exemption
    skipUnusedEntryRead := some c.skipUnusedEntryRead
    hardening := some {
      maskUnsafeStores := some c.hardening.maskUnsafeStores
      maskSmartPointerShadows := some c.hardening.maskSmartPointerShadows
      removeMarkerLoads := some c.hardening.removeMarkerLoads
      pointerMask := some c.hardening.pointerMask }
    flagSymbol := some c.flagSymbol
    typeTagSymbol := some c.typeTagSymbol }

end PassConfig

end HeapDomains
