import TraitWeaver.Config
import TraitWeaver.Json.Basic

/-!
# Options as settings

Options are given as settings under keys, whatever format they are written in. What is not set has
its default; a key that is no option, or a value of the wrong kind, makes the settings be refused.
Which values make sense is not looked at here: `Config.validate` does that.
-/

namespace TraitWeaver

/-- The value of a setting. -/
inductive Setting where
  | text (value : String)
  | flag (value : Bool)
  /-- A value of a kind that no option has. -/
  | other
deriving DecidableEq, Repr

namespace Setting

def text? : Setting → Option String
  | text value => some value
  | _ => none

def flag? : Setting → Option Bool
  | flag value => some value
  | _ => none

end Setting

namespace Config

/-- The key of the option that says whether generated files begin with a comment. -/
def commentKey : String := "emit_generated_comment"

/-- The options with the value of one that names things put in. -/
def setName (c : Config) (option : NameOption) (value : String) : Config :=
  match option with
  | .interfaceSuffix => { c with interfaceSuffix := value }
  | .delegateSuffix => { c with delegateSuffix := value }
  | .superclassPrefix => { c with superclassPrefix := value }
  | .aliasPrefix => { c with aliasPrefix := value }
  | .autoParameterPrefix => { c with autoParameterPrefix := value }

/-- The value of an option that names things. -/
def getName (c : Config) : NameOption → String
  | .interfaceSuffix => c.interfaceSuffix
  | .delegateSuffix => c.delegateSuffix
  | .superclassPrefix => c.superclassPrefix
  | .aliasPrefix => c.aliasPrefix
  | .autoParameterPrefix => c.autoParameterPrefix

/-- The options that name things, in their order. -/
def nameOptions : List NameOption :=
  [.interfaceSuffix, .delegateSuffix, .superclassPrefix, .aliasPrefix, .autoParameterPrefix]

/-- The keys of all options, in their order. -/
def keys : List String := nameOptions.map (·.key) ++ [commentKey]

def set? (c : Config) (key : String) (value : Setting) : Option Config :=
  if key = commentKey then value.flag?.map fun flag => { c with emitComment := flag }
  else do
    let option ← nameOptions.find? (·.key = key)
    return c.setName option (← value.text?)

def ofSettings? (settings : List (String × Setting)) : Option Config :=
  settings.foldlM (fun c (key, value) => c.set? key value) default

/-- The options that values without keys give: they belong to the options in their order, and values
beyond the last option are passed over. -/
def ofValues? (values : List Setting) : Option Config := ofSettings? (keys.zip values)

def toSettings (c : Config) : List (String × Setting) :=
  nameOptions.map (fun option => (option.key, .text (c.getName option))) ++
    [(commentKey, .flag c.emitComment)]

end Config

def Json.toSetting : Json → Setting
  | .string s => .text s
  | .bool b => .flag b
  | _ => .other

/-- Reads options from an object, or from an array that gives the first of them in their order. -/
def Config.ofJson? : Json → Option Config
  | .object entries => ofSettings? (entries.map fun (key, value) => (key, value.toSetting))
  | .array items =>
    if items.length ≤ keys.length then ofValues? (items.map (·.toSetting)) else none
  | _ => none

def Setting.toJson : Setting → Json
  | flag value => .bool value
  | value => .ofString? value.text?

def Config.toJson (c : Config) : Json :=
  .object (c.toSettings.map fun (key, value) => (key, value.toJson))

end TraitWeaver
