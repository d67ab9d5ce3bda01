/-!
# Configuration errors

The ways in which a configuration is refused, and the wording of each.
-/

namespace HeapDomains

/-- Why a configuration is refused. -/
inductive ConfigError where
  /-- A field has a value outside its bounds. -/
  | range (field value min max hint : String)
  /-- A document does not say which version of the format it uses. -/
  | missingVersion
  /-- A document uses a version of the format that is not read. -/
  | unsupportedVersion (found : UInt32) (supported : List UInt32)
  /-- No preset has this name. -/
  | unknownPreset (name : String)
  /-- A symbol name cannot be used in this field. -/
  | symbol (field reason : String)
  /-- The file with the configuration cannot be read or written. -/
  | file (reason : String)
  /-- The text is not a document of the configuration format. -/
  | malformed
  deriving DecidableEq

namespace ConfigError

/-- The wording of a configuration error. A malformed document is described by its first words only,
since the rest depends on the reader of the text. -/
def message : ConfigError → String
  | range field value min max hint =>
    "Invalid range for field '" ++ field ++ "': " ++ value ++ " not in " ++ min ++ "..=" ++ max ++
      ". " ++ hint
  | missingVersion =>
    "Missing 'version' field in configuration file. Add 'version: 1' to the top of your YAML file."
  | unsupportedVersion found supported =>
    "Unsupported configuration version " ++ toString found.toNat ++ ". Supported versions: " ++
      ", ".intercalate (supported.map fun v => toString v.toNat)
  | unknownPreset name =>
    "Unknown preset '" ++ name ++ "'. Valid presets: standard, precise, hardened"
  | symbol field reason => "Invalid symbol for '" ++ field ++ "': " ++ reason
  | file reason => "IO error: " ++ reason
  | malformed => "YAML parsing error"

/-- The name of a kind of error. -/
def kind : ConfigError → String
  | range .. => "Range"
  | missingVersion => "MissingVersion"
  | unsupportedVersion .. => "UnsupportedVersion"
  | unknownPreset _ => "UnknownPreset"
  | symbol .. => "Symbol"
  | file _ => "Io"
  | malformed => "Yaml"

end ConfigError

end HeapDomains
