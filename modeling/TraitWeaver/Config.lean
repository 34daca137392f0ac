import TraitWeaver.Text.Identifier

/-!
# Options of the generator

How the generated types and members are named, and whether generated files say so. `validate` finds
the first option that would not give identifiers.
-/

namespace TraitWeaver

/-- The options of the generator. -/
structure Config where
  /-- What follows a trait's name in the name of its interface. -/
  interfaceSuffix : String
  /-- What follows a trait's name in the name of its delegate. -/
  delegateSuffix : String
  /-- What stands before a host's name in the name of its superclass. -/
  superclassPrefix : String
  /-- What stands before a method's name in the name under which a delegate gives access to the
  trait's own implementation of it. -/
  aliasPrefix : String
  /-- What stands before the number in a made-up name of a type parameter. -/
  autoParameterPrefix : String
  /-- Generated files begin with a comment that says that they are generated. -/
  emitComment : Bool
deriving DecidableEq, Repr

/-- An option that names things. -/
inductive NameOption where
  | interfaceSuffix
  | delegateSuffix
  | superclassPrefix
  | aliasPrefix
  | autoParameterPrefix
deriving DecidableEq, Repr

def NameOption.key : NameOption → String
  | interfaceSuffix => "interface_suffix"
  | delegateSuffix => "delegate_suffix"
  | superclassPrefix => "superclass_prefix"
  | aliasPrefix => "default_alias_prefix"
  | autoParameterPrefix => "auto_parameter_prefix"

/-- Why the options are refused. -/
inductive ConfigError where
  | empty (option : NameOption)
  | invalidIdentifier (option : NameOption) (value : String)
deriving DecidableEq, Repr

def ConfigError.message : ConfigError → String
  | empty option => s!"`{option.key}` must not be empty"
  | invalidIdentifier option value =>
    s!"`{option.key}` value '{value}' is not a valid identifier fragment"

namespace Config

/-- The options that hold where none is given. -/
def default : Config :=
  { interfaceSuffix := "Trait"
    delegateSuffix := "Delegate"
    superclassPrefix := "Abstract"
    aliasPrefix := "trait$"
    autoParameterPrefix := "S"
    emitComment := true }

/-- Checks the value of an option: a text with the property, which the empty text never has. -/
def check (option : NameOption) (value : String) (isValid : String → Bool) :
    Except ConfigError Unit :=
  if value = "" then .error (.empty option)
  else if isValid value then .ok ()
  else .error (.invalidIdentifier option value)

/-- Checks that every name that is formed with the options is an identifier, and that the interface
and the delegate of a trait have different names. -/
def validate (c : Config) : Except ConfigError Unit := do
  check .interfaceSuffix c.interfaceSuffix Text.isIdentifierTail
  check .delegateSuffix c.delegateSuffix Text.isIdentifierTail
  check .superclassPrefix c.superclassPrefix Text.isIdentifier
  check .aliasPrefix c.aliasPrefix Text.isIdentifier
  check .autoParameterPrefix c.autoParameterPrefix Text.isIdentifier
  if c.interfaceSuffix = c.delegateSuffix then
    throw (.invalidIdentifier .delegateSuffix c.delegateSuffix)

/-- The comment at the head of generated files. -/
def header (c : Config) : Option String :=
  if c.emitComment then some "Generated by traitsmith. Do not edit." else none

/-- The simple name of a trait's interface. -/
def interfaceOf (c : Config) (trait : String) : String := trait ++ c.interfaceSuffix

def delegateOf (c : Config) (trait : String) : String := trait ++ c.delegateSuffix

/-- The simple name of a host's superclass. -/
def superclassOf (c : Config) (host : String) : String := c.superclassPrefix ++ host

/-- The name under which a delegate gives access to the trait's own implementation of a method. -/
def aliasOf (c : Config) (method : String) : String := c.aliasPrefix ++ method

/-- The made-up name of the superclass argument at a position, counted from zero. -/
def autoParameterName (c : Config) (position : Nat) : String :=
  s!"{c.autoParameterPrefix}{position}"

end Config

end TraitWeaver
