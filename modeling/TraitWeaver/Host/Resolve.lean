import TraitWeaver.Declaration.Basic
import TraitWeaver.Diagnostic
import TraitWeaver.Host.Basic
import TraitWeaver.Trait.Index

/-!
# Checking hosts

`HostDecl.resolve` makes a host of a declaration: it finds the composed traits, keeps their
qualifiers apart, and checks the superclass and the preferences. What is wrong with any of them
makes the declaration be refused; a preference without effect is only reported.
-/

namespace TraitWeaver

namespace HostDecl

/-- Adds the trait that a name means, which must not be composed already. -/
def addTrait (index : TraitIndex) (traits : List Trait) (name : String) :
    Except DeclarationError (List Trait) := do
  let t ← index.find name
  if traits.any (·.qualifiedName = t.qualifiedName) then throw (.duplicateTrait t.qualifiedName)
  return traits ++ [t]

/-- The traits that the host composes, in the order of the declaration. -/
def findTraits (d : HostDecl) (index : TraitIndex) : Except DeclarationError (List Trait) :=
  d.traits.foldlM (addTrait index) []

end HostDecl

/-- Takes in one more trait. If a trait before it has the same qualifier, it gets the first numbered
one that no trait has. -/
def Trait.distinguish (state : List Trait × List String) (t : Trait) : List Trait × List String :=
  let (before, taken) := state
  if before.any (·.qualifier = t.qualifier) then
    let qualifier := Text.freshNumbered taken t.qualifier
    (before ++ [t.requalify qualifier], taken ++ [qualifier])
  else
    (before ++ [t], taken)

/-- The traits under qualifiers that are all different: the first trait with a qualifier keeps
it. -/
def Trait.distinguishAll (traits : List Trait) : List Trait :=
  (traits.foldl distinguish ([], traits.map (·.qualifier))).1

/-! ## The superclass -/

/-- A superclass argument with its type resolved. -/
def ArgumentDecl.resolve : ArgumentDecl → Except TypeError SuperclassArgument
  | .explicit type => do return .explicit (← type.resolve)
  | .named name => return .named name
  | .auto => return .auto

/-- The superclass that a declaration means. If the declaration gives no arguments, there is one
made up for every parameter. -/
def SuperclassDecl.resolve (d : SuperclassDecl) (host : String) :
    Except DeclarationError Superclass := do
  let name ← (DeclaredName.ofQualified d.name).mapError (.invalidName d.name)
  let params ← (d.typeParams.mapM TypeParamDecl.resolve).mapError
    (.invalidSuperclassArgument host)
  if d.args.isEmpty then
    return ⟨name, params, params.map fun _ => .auto⟩
  if !params.isEmpty && params.length ≠ d.args.length then
    throw (.superclassArity d.name params.length d.args.length)
  let args ← (d.args.mapM ArgumentDecl.resolve).mapError (.invalidSuperclassArgument host)
  return ⟨name, params, args⟩

/-! ## Preferences -/

namespace PreferenceDecl

/-- The composed trait that a preference names. -/
def winnerAmong (p : PreferenceDecl) (traits : List Trait) : Except DeclarationError Trait :=
  (Trait.findAmong traits p.winner).mapError fun
    | .unknownTrait name => .preferenceNotComposed p.method name
    | e => e

/-- Adds a preference to those that are known. It may repeat one of them, but not contradict it. -/
def addTo (p : PreferenceDecl) (traits : List Trait) (known : SortedMap String) :
    Except DeclarationError (SortedMap String) := do
  let winner ← p.winnerAmong traits
  match known.get? p.method with
  | none => return known.insert p.method winner.qualifiedName
  | some first =>
    if first = winner.qualifiedName then return known
    else throw (.conflictingPreference p.method first winner.qualifiedName)

/-- The warning about a new preference for a method that its trait does not have. -/
def warnings (p : PreferenceDecl) (host : String) (traits : List Trait)
    (known : SortedMap String) : List Diagnostic :=
  match p.winnerAmong traits with
  | .error _ => []
  | .ok winner =>
    if known.contains p.method || winner.contributes p.method then []
    else
      [.warningAt host (s!"preference for '{p.method}' has no effect: " ++
        s!"'{winner.qualifiedName}' does not declare it")]

/-- Adds preferences in their order, up to the first that is refused. -/
def addAll (host : String) (traits : List Trait) (known : SortedMap String) :
    List PreferenceDecl → Except DeclarationError (SortedMap String) × List Diagnostic
  | [] => (.ok known, [])
  | p :: rest =>
    match p.addTo traits known with
    | .error e => (.error e, [])
    | .ok next =>
      let (result, diagnostics) := addAll host traits next rest
      (result, p.warnings host traits known ++ diagnostics)

end PreferenceDecl

/-! ## Hosts -/

namespace HostDecl

/-- What comes before the preferences: the name of the host, its traits and its superclass. -/
def resolveParts (d : HostDecl) (index : TraitIndex) :
    Except DeclarationError (DeclaredName × List Trait × Option Superclass) := do
  let name ← (DeclaredName.ofQualified d.name).mapError (.invalidName d.name)
  if d.traits.isEmpty then throw (.noTraits d.name)
  let traits ← d.findTraits index
  let superclass ← d.superclass.mapM fun s => s.resolve d.name
  return (name, Trait.distinguishAll traits, superclass)

/-- The host that a declaration describes, and what was found on the way. -/
def resolve (d : HostDecl) (index : TraitIndex) :
    Except DeclarationError Host × List Diagnostic :=
  match d.resolveParts index with
  | .error e => (.error e, [])
  | .ok (name, traits, superclass) =>
    let (preferences, diagnostics) := PreferenceDecl.addAll d.name traits .empty d.preferences
    (preferences.map fun preferences => { name, traits, superclass, preferences }, diagnostics)

end HostDecl

end TraitWeaver
