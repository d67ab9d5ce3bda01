import HeapDomains.Word
import HeapDomains.Text.Blank
import HeapDomains.Config.Error

/-!
# Pass configuration

What a run of the analysis can be told: how many flag bits a function may use, which call sites need
no flag of their own, which pointers are hardened, and under which symbols the generated code
finds its registers. A preset gives every setting; `PassConfig.offence?` is the one test a
configuration has to pass before a run.
-/

namespace HeapDomains

/-- Which call sites need no flag management of their own. -/
inductive Exemption where
  /-- Those from which an entry call site is reached going outwards. -/
  | descendants
  /-- None but the entries; all others pass the flag on. -/
  | disabled
  deriving DecidableEq

/-- The name of an exemption strategy. -/
def Exemption.name : Exemption → String
  | descendants => "descendants"
  | disabled => "disabled"

/-- The exemption strategy with a name. -/
def Exemption.ofName? : String → Option Exemption
  | "descendants" => some descendants
  | "disabled" => some disabled
  | _ => none

/-- Which pointers are hardened, and with which mask. -/
structure HardeningConfig where
  /-- Mask the pointer operand of stores that cross the boundary. -/
  maskUnsafeStores : Bool
  /-- Mask the addresses of smart-pointer shadow fields. -/
  maskSmartPointerShadows : Bool
  /-- Remove the loads a front end inserted as markers. -/
  removeMarkerLoads : Bool
  /-- The mask that is applied. -/
  pointerMask : Word
  deriving DecidableEq

namespace HardeningConfig

/-- The hardening every preset starts from. -/
def standard : HardeningConfig where
  maskUnsafeStores := false
  maskSmartPointerShadows := true
  removeMarkerLoads := true
  pointerMask := BitVec.allOnes 64

/-- Whether any pointer is masked. -/
def masks (c : HardeningConfig) : Bool := c.maskUnsafeStores || c.maskSmartPointerShadows

/-- The reason to refuse the hardening: a mask of zero that is applied somewhere. -/
def offence? (c : HardeningConfig) : Option ConfigError :=
  if c.masks ∧ c.pointerMask = 0 then
    some (.range "hardening.pointer_mask" "0" "1" (toString (wordLimit - 1))
      "A zero mask turns every masked pointer into null")
  else none

end HardeningConfig

/-- A complete configuration to start from. -/
inductive Preset where
  /-- Exempt what an entry covers, skip unread flags, harden shadows and marker loads. -/
  | standard
  /-- Pass the flag on everywhere and always read it. -/
  | precise
  /-- As `standard`, and mask the stores that cross the boundary. -/
  | hardened
  deriving DecidableEq

namespace Preset

/-- The name of a preset. -/
def name : Preset → String
  | standard => "standard"
  | precise => "precise"
  | hardened => "hardened"

/-- The preset with a name, in small or capital ASCII letters. No other letter has a small form that
occurs in a preset's name. -/
def ofName (s : String) : Except ConfigError Preset :=
  match String.ofList (s.toList.map Char.toLower) with
  | "standard" => .ok standard
  | "precise" => .ok precise
  | "hardened" => .ok hardened
  | _ => .error (.unknownPreset s)

end Preset

/-- The settings of a run. -/
structure PassConfig where
  /-- The most call sites of one function that get a flag bit. -/
  maxFlagBits : UInt32
  /-- Which call sites need no flag management of their own. -/
  exemption : Exemption
  /-- Leave out the read of the flag in functions where nothing depends on it. -/
  skipUnusedEntryRead : Bool
  /-- Which pointers are hardened. -/
  hardening : HardeningConfig
  /-- The symbol of the flag register. -/
  flagSymbol : String
  /-- The symbol of the type-tag register. -/
  typeTagSymbol : String
  /-- The preset the settings started from. -/
  preset : Preset
  deriving DecidableEq

namespace PassConfig

/-- The number of bits of the flag register. -/
def flagRegisterBits : UInt32 := 64

/-- The settings of the standard preset. -/
def standard : PassConfig where
  maxFlagBits := flagRegisterBits
  exemption := .descendants
  skipUnusedEntryRead := true
  hardening := .standard
  flagSymbol := "domain_unsafe_flag"
  typeTagSymbol := "domain_type_tag"
  preset := .standard

instance : Inhabited PassConfig := ⟨standard⟩

/-- The settings of a preset. -/
def ofPreset : Preset → PassConfig
  | .standard => standard
  | .precise =>
    { standard with exemption := .disabled, skipUnusedEntryRead := false, preset := .precise }
  | .hardened =>
    { standard with
      hardening := { HardeningConfig.standard with maskUnsafeStores := true }, preset := .hardened }

/-- The first reason to refuse the settings: the number of flag bits, a blank symbol, one symbol for
both registers, then the hardening. -/
def offence? (c : PassConfig) : Option ConfigError :=
  if c.maxFlagBits = 0 ∨ flagRegisterBits < c.maxFlagBits then
    some (.range "max_flag_bits" (toString c.maxFlagBits.toNat) "1"
      (toString flagRegisterBits.toNat)
      "Each unsafe call site in a function needs its own bit of the 64-bit flag register")
  else if isBlankText c.flagSymbol then some (.symbol "flag_symbol" "symbol name is empty")
  else if isBlankText c.typeTagSymbol then some (.symbol "type_tag_symbol" "symbol name is empty")
  else if c.flagSymbol = c.typeTagSymbol then
    some (.symbol "type_tag_symbol" ("'" ++ c.typeTagSymbol ++ "' is already the flag symbol"))
  else c.hardening.offence?

/-- The settings, if nothing is wrong with them. -/
def validated (c : PassConfig) : Except ConfigError PassConfig :=
  match c.offence? with
  | some error => .error error
  | none => .ok c

end PassConfig

end HeapDomains
