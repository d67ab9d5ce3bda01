import HeapDomains.Proofs.Config
import HeapDomains.Proofs.Config.Yaml
import HeapDomains.Proofs.Except

/-!
# What configuration files say

A configuration file that was written says what the settings were, or why they are refused, and any
other file gives no settings that are refused (`filesSaySettings`). In between, a document is laid
over its preset field by field (`PassConfig.LiesOver`), so that a field that one of the two steps
forgets would show as soon as it differs from the preset's.
-/

namespace HeapDomains

/-! ## Presets -/

/-- A preset is found by its name in small or capital letters. -/
theorem Preset.ofName_eq_ok_iff (name : String) (p : Preset) :
    Preset.ofName name = .ok p ↔ name.toList.map Char.toLower = p.name.toList := by
  have hlower : ∀ text : String, name.toList.map Char.toLower = text.toList ↔
      String.ofList (name.toList.map Char.toLower) = text := by
    intro text
    rw [← String.toList_inj, String.toList_ofList]
  rw [hlower, Preset.ofName]
  split
  · next heq => rw [heq]; cases p <;> simp [Preset.name]
  · next heq => rw [heq]; cases p <;> simp [Preset.name]
  · next heq => rw [heq]; cases p <;> simp [Preset.name]
  · next hstandard hprecise hhardened =>
    constructor
    · exact nofun
    · intro heq
      cases p with
      | standard => exact absurd heq hstandard
      | precise => exact absurd heq hprecise
      | hardened => exact absurd heq hhardened

example : Preset.ofName "HARDENED" = .ok .hardened := rfl

/-- A name that is refused is quoted. -/
theorem Preset.ofName_eq_error {name : String} (h : ∀ p, Preset.ofName name ≠ .ok p) :
    Preset.ofName name = .error (.unknownPreset name) := by
  unfold Preset.ofName at h ⊢
  split
  · next heq => simp [heq] at h
  · next heq => simp [heq] at h
  · next heq => simp [heq] at h
  · rfl

/-- Whether a document starts from a preset: the standard one, or the one it names in small or
capital letters. -/
def ConfigDocument.Names (d : ConfigDocument) (p : Preset) : Prop :=
  match d.preset with
  | none => p = .standard
  | some name => name.toList.map Char.toLower = p.name.toList

/-- A document starts from the preset it names. -/
theorem ConfigDocument.base_eq_ok_iff (d : ConfigDocument) (p : Preset) :
    d.base = .ok p ↔ d.Names p := by
  unfold base Names
  cases d.preset with
  | none => simp [eq_comm]
  | some name => exact Preset.ofName_eq_ok_iff name p

/-! ## Layers -/

/-- Whether a value is the one that is given, or another one if none is. -/
structure Overlays {α : Type} (given : Option α) (fallback value : α) : Prop where
  /-- What is given counts. -/
  of_some : ∀ a, given = some a → value = a
  /-- Where nothing is given, the other value stays. -/
  of_none : given = none → value = fallback

/-- Whether a hardening is another one but for the fields that are given. -/
structure HardeningConfig.LiesOver (c base : HardeningConfig) (o : Option HardeningOverrides) :
    Prop where
  /-- Whether stores are masked. -/
  maskUnsafeStores : Overlays (o.bind (·.maskUnsafeStores)) base.maskUnsafeStores c.maskUnsafeStores
  /-- Whether shadow fields are masked. -/
  maskSmartPointerShadows : Overlays (o.bind (·.maskSmartPointerShadows))
    base.maskSmartPointerShadows c.maskSmartPointerShadows
  /-- Whether marker loads are removed. -/
  removeMarkerLoads : Overlays (o.bind (·.removeMarkerLoads)) base.removeMarkerLoads
    c.removeMarkerLoads
  /-- The mask. -/
  pointerMask : Overlays (o.bind (·.pointerMask)) base.pointerMask c.pointerMask

/-- Whether settings are other ones but for the fields that are given. -/
structure PassConfig.LiesOver (c base : PassConfig) (o : Option PassOverrides) : Prop where
  /-- The number of flag bits. -/
  maxFlagBits : Overlays (o.bind (·.maxFlagBits)) base.maxFlagBits c.maxFlagBits
  /-- The exemption strategy. -/
  exemption : Overlays (o.bind (·.exemption)) base.exemption c.exemption
  /-- Whether unread flags are skipped. -/
  skipUnusedEntryRead : Overlays (o.bind (·.skipUnusedEntryRead)) base.skipUnusedEntryRead
    c.skipUnusedEntryRead
  /-- The hardening, again field by field. -/
  hardening : c.hardening.LiesOver base.hardening (o.bind (·.hardening))
  /-- The symbol of the flag register. -/
  flagSymbol : Overlays (o.bind (·.flagSymbol)) base.flagSymbol c.flagSymbol
  /-- The symbol of the type-tag register. -/
  typeTagSymbol : Overlays (o.bind (·.typeTagSymbol)) base.typeTagSymbol c.typeTagSymbol
  /-- The preset is no field. -/
  preset : c.preset = base.preset

/-- A field of overrides that may be missing, when all fields of the missing ones are. -/
theorem overlays_bind {α β : Type} (o : Option α) {absent : α} (field : α → Option β) (fallback : β)
    (h : field absent = none) :
    Overlays (o.bind field) fallback ((field (o.getD absent)).getD fallback) := by
  cases o with
  | none => exact ⟨nofun, fun _ => by rw [Option.getD_none, h, Option.getD_none]⟩
  | some a =>
    constructor
    · intro b hb
      rw [Option.bind_some] at hb
      rw [Option.getD_some, hb, Option.getD_some]
    · intro hnone
      rw [Option.bind_some] at hnone
      rw [Option.getD_some, hnone, Option.getD_none]

/-- A hardening with fields replaced differs in these. -/
theorem HardeningConfig.liesOver_override (c : HardeningConfig) (o : Option HardeningOverrides) :
    (c.override (o.getD {})).LiesOver c o where
  maskUnsafeStores := overlays_bind o (·.maskUnsafeStores) _ rfl
  maskSmartPointerShadows := overlays_bind o (·.maskSmartPointerShadows) _ rfl
  removeMarkerLoads := overlays_bind o (·.removeMarkerLoads) _ rfl
  pointerMask := overlays_bind o (·.pointerMask) _ rfl

/-- Settings with fields replaced differ in these. -/
theorem PassConfig.liesOver_override (c : PassConfig) (o : Option PassOverrides) :
    (c.override (o.getD {})).LiesOver c o where
  maxFlagBits := overlays_bind o (·.maxFlagBits) _ rfl
  exemption := overlays_bind o (·.exemption) _ rfl
  skipUnusedEntryRead := overlays_bind o (·.skipUnusedEntryRead) _ rfl
  hardening := by
    have hnested : (o.getD {}).hardening = o.bind (·.hardening) := by cases o <;> rfl
    rw [← hnested]
    exact HardeningConfig.liesOver_override c.hardening _
  flagSymbol := overlays_bind o (·.flagSymbol) _ rfl
  typeTagSymbol := overlays_bind o (·.typeTagSymbol) _ rfl
  preset := rfl

/-! ## Files -/

namespace PassConfig

/-- The settings of a preset remember it. -/
theorem preset_ofPreset (p : Preset) : (ofPreset p).preset = p := by
  cases p <;> rfl

/-- A document of the first version is laid over the preset it starts from. -/
theorem settings_of_version {d : ConfigDocument} (h : d.version = some 1) :
    d.settings = d.base.map fun p => (ofPreset p).override (d.overrides.getD {}) := by
  have hversion : (1 : UInt32) ∈ ConfigDocument.supportedVersions := List.mem_singleton.2 rfl
  rw [ConfigDocument.settings, h]
  exact if_pos hversion

/-- The document of settings describes them. -/
theorem settings_toDocument (c : PassConfig) : c.toDocument.settings = .ok c := by
  have hnames : c.toDocument.Names c.preset := by
    change c.preset.name.toList.map Char.toLower = c.preset.name.toList
    cases c.preset <;> decide
  have hbase := (c.toDocument.base_eq_ok_iff c.preset).2 hnames
  have hoverride : (ofPreset c.preset).override (c.toDocument.overrides.getD {}) = c := by
    rw [PassConfig.override, preset_ofPreset]
    rfl
  rw [settings_of_version rfl, hbase, Except.map, hoverride]

/-- The text of settings gives the settings, if they are valid. -/
theorem ofYaml_yaml (c : PassConfig) : ofYaml c.yaml = c.validated := by
  rw [ofYaml, documentOfYaml_yaml, Except.bind, ofDocument, settings_toDocument, Except.bind]

/-- The settings that a text gives are valid. -/
theorem validated_of_ofYaml {text : String} {c : PassConfig} (h : ofYaml text = .ok c) :
    c.validated = .ok c := by
  obtain ⟨d, -, hdocument⟩ := bind_eq_ok.1 h
  obtain ⟨c', -, hvalid⟩ := bind_eq_ok.1 hdocument
  have heq : c' = c := by
    rw [validated] at hvalid
    split at hvalid
    · cases hvalid
    · exact Except.ok.inj hvalid
  rwa [heq] at hvalid

/-- What configuration files say. -/
structure FilesSaySettings : Prop where
  /-- A file that was written from valid settings gives them back, the preset included. -/
  ofYaml_of_valid : ∀ c : PassConfig, c.offence? = none → ofYaml c.yaml = .ok c
  /-- A file that was written from other settings is refused with what is wrong with them. -/
  ofYaml_of_offence : ∀ (c : PassConfig) (e : ConfigError), c.offence? = some e →
    ofYaml c.yaml = .error e
  /-- A document of the first version describes the settings of its preset but for the fields that
  it gives. -/
  settings_of_names : ∀ (d : ConfigDocument) (p : Preset), d.version = some 1 → d.Names p →
    ∃ c, d.settings = .ok c ∧ c.preset = p ∧ c.LiesOver (ofPreset p) d.overrides
  /-- A document that starts from no preset is refused with the name it gives. -/
  settings_of_unknown : ∀ d : ConfigDocument, d.version = some 1 → (∀ p, ¬d.Names p) →
    ∃ name, d.preset = some name ∧ d.settings = .error (.unknownPreset name)
  /-- The settings that a file gives are accepted. -/
  validated_of_ofYaml : ∀ (text : String) (c : PassConfig), ofYaml text = .ok c →
    c.offence? = none ∧ c.validated = .ok c

/-- Configuration files keep settings, and give none that are refused. -/
theorem filesSaySettings : FilesSaySettings where
  ofYaml_of_valid := by
    intro c h
    rw [ofYaml_yaml, validated, h]
  ofYaml_of_offence := by
    intro c e h
    rw [ofYaml_yaml, validated, h]
  settings_of_names := by
    intro d p hversion hnames
    have hlies := (ofPreset p).liesOver_override d.overrides
    refine ⟨(ofPreset p).override (d.overrides.getD {}), ?_, ?_, hlies⟩
    · rw [settings_of_version hversion, (d.base_eq_ok_iff p).2 hnames, Except.map]
    · rw [hlies.preset, preset_ofPreset]
  settings_of_unknown := by
    intro d hversion hnone
    cases hpreset : d.preset with
    | none =>
      have hnames : d.Names .standard := by
        rw [ConfigDocument.Names, hpreset]
      exact absurd hnames (hnone .standard)
    | some name =>
      have hname : ∀ p, Preset.ofName name ≠ .ok p := by
        intro p hp
        refine hnone p ?_
        rw [ConfigDocument.Names, hpreset]
        exact (Preset.ofName_eq_ok_iff name p).1 hp
      refine ⟨name, rfl, ?_⟩
      rw [settings_of_version hversion, ConfigDocument.base, hpreset]
      simp only [Preset.ofName_eq_error hname]
      rfl
  validated_of_ofYaml := fun text c h =>
    ⟨offence?_of_validated (validated_of_ofYaml h), validated_of_ofYaml h⟩

end PassConfig

end HeapDomains
