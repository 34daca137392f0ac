import TraitWeaver.Artifact.Delegate
import TraitWeaver.Artifact.Interface
import TraitWeaver.Artifact.Superclass
import TraitWeaver.Filer

/-!
# Generating files

A generator writes the interface and the delegate of a trait, and the superclass of a host, through
a filer, each at most once. Files are rendered before any of them is written.
-/

namespace TraitWeaver

/-- Why nothing, or not all, was generated for a declaration. -/
inductive GenerationError where
  | alreadyGenerated (name : String)
  /-- The plan of a file cannot be written. -/
  | unwritable (name : String) (cause : WriterError)
  /-- A file was not created. -/
  | io (name : String) (cause : FileFault)
deriving DecidableEq, Repr

namespace GenerationError

def message : GenerationError → String
  | alreadyGenerated name => s!"artifacts for '{name}' were already generated"
  | unwritable name _ => s!"failed to emit '{name}'"
  | io name _ => s!"failed to write '{name}'"

def cause? : GenerationError → Option String
  | alreadyGenerated _ => none
  | unwritable _ cause => some cause.message
  | io _ cause => some cause.text

/-- The code that the error is reported under. -/
def code : GenerationError → String
  | alreadyGenerated _ => "traitsmith::generate::already_generated"
  | unwritable .. => "traitsmith::generate::writer"
  | io .. => "traitsmith::generate::io"

def help? : GenerationError → Option String
  | alreadyGenerated _ => some "each trait and host is generated once per round"
  | _ => none

end GenerationError

/-- The qualified names of the types that are generated for a trait. -/
structure TraitFiles where
  interface : String
  delegate : String
deriving DecidableEq, Repr

/-- What a generator has generated. -/
structure Generator where
  config : Config
  traitsDone : List String
  hostsDone : List String

namespace Generator

/-- A generator that has generated nothing. -/
def new (config : Config) : Generator := ⟨config, [], []⟩

def finish (u : CompilationUnit) (origin : String) : Except GenerationError SourceFile :=
  match u.render with
  | .ok text => .ok ⟨u.name.qualified, origin, text⟩
  | .error e => .error (.unwritable u.name.qualified e)

section

variable {m : Type → Type} [Monad m]

/-- Hands files to a filer, up to the first that it refuses. -/
def createAll (filer : Filer m) : List SourceFile → m (Except GenerationError Unit)
  | [] => return .ok ()
  | file :: rest => do
    match ← filer.create file with
    | .ok () => createAll filer rest
    | .error fault => return .error (.io file.name fault)

/-- Generates the interface and the delegate of a trait. A generator that fails is as it was, also
if the interface has been created. -/
def generateTrait (filer : Filer m) (g : Generator) (t : Trait) :
    m (Except GenerationError (TraitFiles × Generator)) := do
  let origin := t.qualifiedName
  if origin ∈ g.traitsDone then return .error (.alreadyGenerated origin)
  let files := do
    let interface ← finish (t.interfaceFile g.config) origin
    let delegate ← finish (t.delegateFile g.config) origin
    return (interface, delegate)
  match files with
  | .error e => return .error e
  | .ok (interface, delegate) =>
    match ← createAll filer [interface, delegate] with
    | .error e => return .error e
    | .ok () =>
      return .ok (⟨interface.name, delegate.name⟩, { g with traitsDone := origin :: g.traitsDone })

/-- Generates the superclass of a host, and gives its qualified name. -/
def generateHost (filer : Filer m) (g : Generator) (h : Host) :
    m (Except GenerationError (String × Generator)) := do
  let origin := h.qualifiedName
  if origin ∈ g.hostsDone then return .error (.alreadyGenerated origin)
  match finish (h.superclassFile g.config) origin with
  | .error e => return .error e
  | .ok file =>
    match ← createAll filer [file] with
    | .error e => return .error e
    | .ok () => return .ok (file.name, { g with hostsDone := origin :: g.hostsDone })

end

end Generator

end TraitWeaver
