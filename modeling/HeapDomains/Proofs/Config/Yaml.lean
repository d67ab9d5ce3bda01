import HeapDomains.Config.Yaml
import HeapDomains.Proofs.Yaml.Node
import HeapDomains.Proofs.Yaml.Value

/-!
# Configuration files that were written

The text of a configuration file gives back the document that was written
(`documentOfYaml_yaml`): its lines are read as their tokens, the tokens as the tree of their keys
and values, and each value as the setting that it was written for.
-/

namespace HeapDomains

open Yaml

namespace PassConfig

/-- The lines of a configuration file. -/
def yamlLines (c : PassConfig) : List Line :=
  [⟨0, "version", some (.plain, "1")⟩,
    ⟨0, "preset", some (.plain, c.preset.name)⟩,
    ⟨0, "overrides", none⟩,
    ⟨2, "max_flag_bits", some (.plain, toString c.maxFlagBits.toNat)⟩,
    ⟨2, "exemption", some (.plain, c.exemption.name)⟩,
    ⟨2, "skip_unused_entry_read", some (.plain, boolText c.skipUnusedEntryRead)⟩,
    ⟨2, "hardening", none⟩,
    ⟨4, "mask_unsafe_stores", some (.plain, boolText c.hardening.maskUnsafeStores)⟩,
    ⟨4, "mask_smart_pointer_shadows", some (.plain, boolText c.hardening.maskSmartPointerShadows)⟩,
    ⟨4, "remove_marker_loads", some (.plain, boolText c.hardening.removeMarkerLoads)⟩,
    ⟨4, "pointer_mask", some (.plain, toString c.hardening.pointerMask.toNat)⟩,
    ⟨2, "flag_symbol", some ((Form.of c.flagSymbol).style, c.flagSymbol)⟩,
    ⟨2, "type_tag_symbol", some ((Form.of c.typeTagSymbol).style, c.typeTagSymbol)⟩]

/-- The fields of the hardening in a configuration file. -/
def hardeningFields (c : HardeningConfig) : List (String × Node) :=
  [("mask_unsafe_stores", Node.plain (boolText c.maskUnsafeStores)),
    ("mask_smart_pointer_shadows", Node.plain (boolText c.maskSmartPointerShadows)),
    ("remove_marker_loads", Node.plain (boolText c.removeMarkerLoads)),
    ("pointer_mask", Node.plain (toString c.pointerMask.toNat))]

/-- The fields of the settings in a configuration file. -/
def overrideFields (c : PassConfig) : List (String × Node) :=
  [("max_flag_bits", Node.plain (toString c.maxFlagBits.toNat)),
    ("exemption", Node.plain c.exemption.name),
    ("skip_unused_entry_read", Node.plain (boolText c.skipUnusedEntryRead)),
    ("hardening", .record (hardeningFields c.hardening)),
    ("flag_symbol", Node.ofForm c.flagSymbol),
    ("type_tag_symbol", Node.ofForm c.typeTagSymbol)]

/-- The fields of a configuration file. -/
def yamlFields (c : PassConfig) : List (String × Node) :=
  [("version", Node.plain "1"), ("preset", Node.plain c.preset.name),
    ("overrides", .record c.overrideFields)]

/-! ## Lines -/

/-- The lines of a configuration file make the tree of its fields. -/
theorem ofTokens?_yamlLines (c : PassConfig) :
    Node.ofTokens? (lineTokens [] c.yamlLines) = some (.record c.yamlFields) := by
  obtain ⟨tokens, hentries, htokens⟩ : ∃ tokens,
      Entries (c.yamlFields.map fun f => (.plain f.1, f.2)) tokens ∧
        lineTokens [] c.yamlLines = .blockStart :: (tokens ++ [.blockEnd]) := by
    refine ⟨_, .value (.value (.mapping (.value (.value (.value (.mapping
      (.value (.value (.value (.value .nil)))) (.value (.value .nil)))))) .nil)), ?_⟩
    simp [yamlLines, lineTokens, keyTokens, indentsAt]
  rw [htokens]
  exact hentries.ofTokens?_eq

/-- The text of a configuration file consists of its lines. -/
theorem written_yaml (c : PassConfig) : Written c.yamlLines 0 c.yaml.toList := by
  have hbool : ∀ b, allowsPlain (boolText b).toList = true := by decide
  have hpreset : allowsPlain c.preset.name.toList = true := by cases c.preset <;> decide
  have hexemption : allowsPlain c.exemption.name.toList = true := by cases c.exemption <;> decide
  have hnumber : ∀ n : Nat, allowsPlain (toString n).toList = true := by
    intro n
    rw [toList_toString]
    refine allowsPlain_of_isAlphanum Nat.toDigits_ne_nil fun d hd => ?_
    rw [Char.isAlphanum, isDigit_of_mem_toDigits hd, Bool.or_true]
  obtain ⟨text, hwritten, htext⟩ : ∃ text, Written c.yamlLines 0 text ∧ c.yaml.toList = text := by
    refine ⟨_,
      .value (by decide) (writtenValue_of_allowsPlain (by decide)) (by decide) <|
      .value (by decide) (writtenValue_of_allowsPlain hpreset) (by decide) <|
      .head (by decide) <|
      .value (by decide) (writtenValue_of_allowsPlain (hnumber _)) (by decide) <|
      .value (by decide) (writtenValue_of_allowsPlain hexemption) (by decide) <|
      .value (by decide) (writtenValue_of_allowsPlain (hbool _)) (by decide) <|
      .head (by decide) <|
      .value (by decide) (writtenValue_of_allowsPlain (hbool _)) (by decide) <|
      .value (by decide) (writtenValue_of_allowsPlain (hbool _)) (by decide) <|
      .value (by decide) (writtenValue_of_allowsPlain (hbool _)) (by decide) <|
      .value (by decide) (writtenValue_of_allowsPlain (hnumber _)) (by decide) <|
      .value (by decide) (writtenValue_renderScalar _) (by decide) <|
      .value (by decide) (writtenValue_renderScalar _) (by decide) .nil, ?_⟩
    have hcolon : ": ".toList = [':', ' '] := rfl
    have hindent : "  ".toList = List.replicate 2 ' ' := rfl
    simp only [yaml, yamlLine, yamlHead, yamlSymbol, String.toList_ofList, hcolon, hindent,
      List.replicate_zero, List.append_assoc, List.cons_append, List.nil_append, List.append_nil]
  rwa [htext]

/-- The tree of a configuration file is that of its fields. -/
theorem ofText?_yaml (c : PassConfig) : Node.ofText? c.yaml = some (.record c.yamlFields) := by
  rw [Node.ofText?, tokens?_of_written c.written_yaml, Option.bind_some, ofTokens?_yamlLines]

/-! ## Fields -/

/-- The mask of the hardening is read from its digits. -/
theorem optional?_pointerMask (mask : Word) :
    (Node.plain (toString mask.toNat)).optional?
      (fun node => (node.nat? wordLimit).map (BitVec.ofNat 64)) = some (some mask) := by
  have hlimit : mask.toNat < wordLimit := mask.isLt
  rw [Node.optional?_toString (BitVec.ofNat 64) hlimit, BitVec.ofNat_toNat, BitVec.setWidth_eq]

/-- A number of 32 bits is read from its digits. -/
theorem optional?_uint32 (n : UInt32) :
    (Node.plain (toString n.toNat)).optional?
      (fun node => (node.nat? UInt32.size).map UInt32.ofNat) = some (some n) := by
  have hlimit : n.toNat < UInt32.size := n.toNat_lt
  rw [Node.optional?_toString UInt32.ofNat hlimit, UInt32.ofNat_toNat]

/-- An exemption strategy is read from its name. -/
theorem optional?_exemption (e : Exemption) :
    (Node.plain e.name).optional? (fun node => node.name?.bind Exemption.ofName?) =
      some (some e) := by
  cases e <;> rfl

/-- The name of a preset is read. -/
theorem optional?_preset (p : Preset) :
    (Node.plain p.name).optional? Node.text? = some (some p.name) := by
  cases p <;> rfl

/-- The hardening is read from its fields. -/
theorem ofNode?_hardeningFields (c : HardeningConfig) :
    HardeningOverrides.ofNode? (.record (hardeningFields c)) = some {
      maskUnsafeStores := some c.maskUnsafeStores
      maskSmartPointerShadows := some c.maskSmartPointerShadows
      removeMarkerLoads := some c.removeMarkerLoads
      pointerMask := some c.pointerMask } := by
  have hfields : (Node.record (hardeningFields c)).fields?
      ["mask_unsafe_stores", "mask_smart_pointer_shadows", "remove_marker_loads", "pointer_mask"] =
        some (hardeningFields c) :=
    Node.fields?_record (by simp [hardeningFields]) (by simp [hardeningFields])
  rw [HardeningOverrides.ofNode?, hfields]
  simp only [hardeningFields, readField_cons_self, readField_cons_of_ne, ne_eq, String.reduceEq,
    not_false_eq_true, Node.optional?_boolText, optional?_pointerMask, Option.bind_eq_bind,
    Option.bind_some]

/-- The settings are read from their fields. -/
theorem ofNode?_overrideFields (c : PassConfig) :
    PassOverrides.ofNode? (.record c.overrideFields) = c.toDocument.overrides := by
  have hfields : (Node.record c.overrideFields).fields?
      ["max_flag_bits", "exemption", "skip_unused_entry_read", "hardening", "flag_symbol",
        "type_tag_symbol"] = some c.overrideFields :=
    Node.fields?_record (by simp [overrideFields]) (by simp [overrideFields])
  rw [PassOverrides.ofNode?, hfields]
  simp only [overrideFields, readField_cons_self, readField_cons_of_ne, ne_eq, String.reduceEq,
    not_false_eq_true, optional?_uint32, optional?_exemption, Node.optional?_boolText,
    Node.optional?_record, ofNode?_hardeningFields, Node.optional?_ofForm, Option.map_some,
    Option.bind_eq_bind, Option.bind_some]
  rfl

/-- The document is read from its fields. -/
theorem ofNode?_yamlFields (c : PassConfig) :
    ConfigDocument.ofNode? (.record c.yamlFields) = some c.toDocument := by
  have hfields : (Node.record c.yamlFields).fields? ["version", "preset", "overrides"] =
      some c.yamlFields :=
    Node.fields?_record (by simp [yamlFields]) (by simp [yamlFields])
  have hversion : (Node.plain "1").optional?
      (fun node => (node.nat? UInt32.size).map UInt32.ofNat) = some (some 1) := optional?_uint32 1
  rw [ConfigDocument.ofNode?, hfields]
  simp only [yamlFields, readField_cons_self, readField_cons_of_ne, ne_eq, String.reduceEq,
    not_false_eq_true, hversion, optional?_preset, Node.optional?_record, ofNode?_overrideFields,
    Option.bind_eq_bind, Option.bind_some]
  rfl

/-- The text of settings gives back their document. -/
theorem documentOfYaml_yaml (c : PassConfig) :
    ConfigDocument.ofYaml c.yaml = .ok c.toDocument := by
  rw [ConfigDocument.ofYaml, ofText?_yaml, Option.bind_some, ofNode?_yamlFields]

end PassConfig

end HeapDomains
