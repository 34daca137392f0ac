import TraitWeaver.Config.Settings
import TraitWeaver.Toml.Reader

/-!
# Manifests

A manifest is a TOML document whose table `generator` holds the options of the generator. Other
tables belong to other tools and are passed over. A manifest without the table gives the defaults.
-/

namespace TraitWeaver

/-- Why a manifest is refused. -/
inductive ManifestError where
  /-- It is no TOML, or the table holds something else than options. -/
  | malformed
  | invalidOptions (cause : ConfigError)
deriving DecidableEq, Repr

def ManifestError.message : ManifestError → String
  | malformed => "the manifest cannot be read"
  | invalidOptions cause => cause.message

def Toml.Value.toSetting : Toml.Value → Setting
  | .text s => .text s
  | .flag b => .flag b
  | _ => .other

/-- Reads options from a table, or from an array that gives them in their order. -/
def Config.ofToml? : Toml.Value → Option Config
  | .table _ entries => ofSettings? (entries.map fun (key, value) => (key, value.toSetting))
  | .array items => ofValues? (items.map (·.toSetting))
  | _ => none

namespace Manifest

/-- The name of the file that a manifest is looked for in. -/
def fileName : String := "traitsmith.toml"

/-- The key of the table with the options. -/
def generatorKey : String := "generator"

/-- The options that a manifest gives, as they are written. -/
def options? (text : String) : Option Config := do
  match (← Toml.read? text).get? generatorKey with
  | none => some .default
  | some value => Config.ofToml? value

/-- The options that a manifest gives, if they are in order. -/
def read (text : String) : Except ManifestError Config :=
  match options? text with
  | none => .error .malformed
  | some config =>
    match config.validate with
    | .ok () => .ok config
    | .error e => .error (.invalidOptions e)

end Manifest

end TraitWeaver
