import TraitWeaver.DeclaredName

/-!
# Why a declaration is refused

A declaration that is refused takes no part in the round. What is wrong with single members of a
trait is no reason to refuse it: members are reported and left out.
-/

namespace TraitWeaver

/-- Why a declaration of a trait, a host or an interface is refused as a whole. -/
inductive DeclarationError where
  | invalidName (name : String) (cause : TypeError)
  | unresolvableType (owner : String) (cause : TypeError)
  /-- An interface is given another number of arguments than it has parameters. -/
  | interfaceArity (interface : String) (expected found : Nat)
  /-- A trait extends something else than the root of the hierarchy. -/
  | illegalSuperclass (name superclass : String)
  | unknownTrait (name : String)
  /-- Several traits have this simple name. -/
  | ambiguousTrait (name : String) (candidates : List String)
  | duplicateTrait (name : String)
  | noTraits (host : String)
  | preferenceNotComposed (method trait : String)
  | conflictingPreference (method first second : String)
  /-- A superclass is given another number of arguments than it has parameters. -/
  | superclassArity (superclass : String) (expected found : Nat)
  | invalidSuperclassArgument (host : String) (cause : TypeError)
deriving DecidableEq, Repr

def DeclarationError.message : DeclarationError → String
  | invalidName name cause => s!"invalid name '{name}': {cause.message}"
  | unresolvableType owner cause => s!"unresolvable type in '{owner}': {cause.message}"
  | interfaceArity interface expected found =>
    s!"'{interface}' declares {expected} type parameter(s) but {found} argument(s) were given"
  | illegalSuperclass name superclass => s!"trait '{name}' must not extend '{superclass}'"
  | unknownTrait name => s!"unknown trait '{name}'"
  | ambiguousTrait name candidates =>
    s!"trait name '{name}' is ambiguous between " ++ ", ".intercalate candidates
  | duplicateTrait name => s!"trait '{name}' is composed more than once"
  | noTraits host => s!"host '{host}' composes no traits"
  | preferenceNotComposed method trait =>
    s!"preference for '{method}' names '{trait}', which is not composed"
  | conflictingPreference method first second =>
    s!"conflicting preferences for '{method}': '{first}' and '{second}'"
  | superclassArity superclass expected found =>
    s!"superclass '{superclass}' takes {expected} type argument(s) but {found} were given"
  | invalidSuperclassArgument host cause =>
    s!"invalid superclass argument on '{host}': {cause.message}"

end TraitWeaver
