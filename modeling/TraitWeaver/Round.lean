import TraitWeaver.Generator
import TraitWeaver.Host.Resolve
import TraitWeaver.Trait.Resolve

/-!
# A round of generation

A round checks all declared traits and generates their files, then checks each host and generates
its superclass. What fails is reported at its declaration and skipped, and so is a host of which a
trait's files could not be generated. Nothing else depends on it.
-/

namespace TraitWeaver

/-- What has come of a round so far. -/
structure RoundResult where
  /-- The qualified names of the generated types, in the order of generation. -/
  generated : List String
  skippedTraits : Nat
  skippedHosts : Nat
  diagnostics : List Diagnostic
deriving DecidableEq, Repr

namespace RoundResult

def empty : RoundResult := ⟨[], 0, 0, []⟩

def isComplete (r : RoundResult) : Bool := r.skippedTraits = 0 && r.skippedHosts = 0

def report (r : RoundResult) (ds : List Diagnostic) : RoundResult :=
  { r with diagnostics := r.diagnostics ++ ds }

def skipTrait (r : RoundResult) (d : Diagnostic) : RoundResult :=
  { r.report [d] with skippedTraits := r.skippedTraits + 1 }

def skipHost (r : RoundResult) (d : Diagnostic) : RoundResult :=
  { r.report [d] with skippedHosts := r.skippedHosts + 1 }

def addGenerated (r : RoundResult) (names : List String) : RoundResult :=
  { r with generated := r.generated ++ names }

end RoundResult

/-- The report of a declaration that is refused. -/
def DeclarationError.diagnostic (e : DeclarationError) (location : String) : Diagnostic :=
  let d := Diagnostic.errorAt location e.message
  match e with
  | .ambiguousTrait .. => d.withHint "use the trait's qualified name"
  | .unknownTrait _ => d.withHint "traits must be declared in the same round"
  | _ => d

namespace Declarations

/-! ## Checking the traits -/

/-- Checks a trait. Of several traits of one name the first counts. -/
def addTrait (config : Config) (state : TraitIndex × RoundResult) (d : TraitDecl) :
    TraitIndex × RoundResult :=
  let (index, result) := state
  match d.resolve config with
  | .error e => (index, result.skipTrait (e.diagnostic d.name))
  | .ok (t, diagnostics) =>
    let result := result.report diagnostics
    if (index.get? t.qualifiedName).isSome then
      let e := DeclarationError.duplicateTrait t.qualifiedName
      (index, result.skipTrait (e.diagnostic d.name))
    else
      (index.insert t, result)

def checkTraits (d : Declarations) (config : Config) : TraitIndex × RoundResult :=
  d.traits.foldl (addTrait config) (.empty, .empty)

/-! ## Generation -/

/-- A round on its way: the generator, the names of the traits whose files are missing, and what has
come of the round. -/
structure Progress where
  generator : Generator
  failed : List String
  result : RoundResult

section

variable {m : Type → Type} [Monad m]

def generateTrait (filer : Filer m) (p : Progress) (t : Trait) : m Progress := do
  match ← p.generator.generateTrait filer t with
  | .ok (files, generator) =>
    return { p with
      generator
      result := p.result.addGenerated [files.interface, files.delegate] }
  | .error e =>
    return { p with
      failed := t.qualifiedName :: p.failed
      result := p.result.skipTrait (.errorAt t.qualifiedName e.message) }

/-- Checks a host and generates its superclass, unless files of one of its traits are missing. -/
def generateHost (filer : Filer m) (index : TraitIndex) (p : Progress) (d : HostDecl) :
    m Progress := do
  let (host, diagnostics) := d.resolve index
  let result := p.result.report diagnostics
  match host with
  | .error e => return { p with result := result.skipHost (e.diagnostic d.name) }
  | .ok host =>
    match host.traits.find? (·.qualifiedName ∈ p.failed) with
    | some missing =>
      return { p with
        result := result.skipHost (.errorAt d.name
          (s!"superclass not generated: artifacts for trait '{missing.qualifiedName}' " ++
            "are missing")) }
    | none =>
      match ← p.generator.generateHost filer host with
      | .ok (name, generator) => return { p with generator, result := result.addGenerated [name] }
      | .error e =>
        return { p with result := result.skipHost (.errorAt d.name e.message) }

/-- Runs a round: the traits in increasing order of their names, then the hosts as declared. -/
def process (d : Declarations) (config : Config) (filer : Filer m) : m RoundResult := do
  let (index, result) := d.checkTraits config
  let start : Progress := ⟨.new config, [], result⟩
  let p ← index.traits.foldlM (generateTrait filer) start
  let p ← d.hosts.foldlM (generateHost filer index) p
  return p.result

end

end Declarations

end TraitWeaver
