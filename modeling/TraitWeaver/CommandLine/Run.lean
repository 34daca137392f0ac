import TraitWeaver.CommandLine.Arguments
import TraitWeaver.Declaration.Schema
import TraitWeaver.FileSystem
import TraitWeaver.Manifest
import TraitWeaver.Round

/-!
# Running a call

A call reads the declarations of a round and a manifest, generates into a directory or into memory,
and says how many files there are. It fails if it cannot read what it needs, or if the round reports
an error; in the second case everything else has been generated all the same.
-/

namespace TraitWeaver

/-! ## Failures -/

/-- Why a command has failed. -/
inductive CommandError where
  | unreadableInput (path : Path) (cause : FileFault)
  | invalidInput (path : Path) (cause : Json.Fault)
  | unreadableManifest (path : Path) (cause : FileFault)
  | invalidManifest (path : Path) (cause : ManifestError)
  | noOutputDirectory (path : Path) (cause : FileFault)
  /-- The round has reported errors. -/
  | roundErrors (count : Nat)
deriving DecidableEq, Repr

def CommandError.message : CommandError → String
  | unreadableInput path cause => s!"failed to read input '{path.text}': {cause.text}"
  | invalidInput path cause =>
    let reason := match cause with
      | .endOfText => "it ends too early"
      | .malformed => "it is not JSON"
      | .wrongForm => "it does not describe a round"
    s!"failed to parse input '{path.text}': {reason}"
  | unreadableManifest path cause => s!"failed to read manifest '{path.text}': {cause.text}"
  | invalidManifest path cause => s!"failed to parse manifest '{path.text}': {cause.message}"
  | noOutputDirectory path cause =>
    s!"failed to create output directory '{path.text}': {cause.text}"
  | roundErrors count => s!"{count} error(s) were reported"

/-- What a call comes to: its exit code, the text that it prints, and what it reports beside it. -/
structure Outcome where
  exitCode : Nat
  output : String
  reports : List String
deriving DecidableEq, Repr

namespace Outcome

/-- A call that prints something and does nothing else. -/
def ofOutput (output : String) : Outcome := ⟨0, output, []⟩

def ofUsageError (e : UsageError) : Outcome := ⟨2, "", [s!"error: {e.message}"]⟩

/-- A command that fails before it has generated anything. -/
def ofError (e : CommandError) : Outcome := ⟨1, "", [s!"error: {e.message}"]⟩

def reportLines (d : Diagnostic) : List String :=
  let report := d.report
  s!"{report.code}: {report.message}" :: report.help.toList.map fun help => s!"  help: {help}"

def ofRound (output : String) (diagnostics : List Diagnostic) : Outcome :=
  let reports := diagnostics.flatMap reportLines
  match Diagnostic.errorCount diagnostics with
  | 0 => ⟨0, output, reports⟩
  | count => ⟨1, output, reports ++ [s!"error: {(CommandError.roundErrors count).message}"]⟩

end Outcome

section

variable {m : Type → Type} [Monad m]

/-! ## Reading -/

def Declarations.load (fs : FileSystem m) (path : Path) :
    m (Except CommandError Declarations) := do
  match ← fs.read path with
  | .error fault => return .error (.unreadableInput path fault)
  | .ok text => return (ofText text).mapError (.invalidInput path)

def Manifest.load (fs : FileSystem m) (path : Path) : m (Except CommandError Config) := do
  match ← fs.read path with
  | .error fault => return .error (.unreadableManifest path fault)
  | .ok text => return (Manifest.read text).mapError (.invalidManifest path)

/-- The options for an input: those of the given manifest, which must exist, or else of the one
beside the input, or else the defaults. -/
def Config.load (fs : FileSystem m) (input : Path) (manifest : Option Path) :
    m (Except CommandError Config) := do
  match manifest with
  | some path => Manifest.load fs path
  | none =>
    let path := input.directory.join ⟨Manifest.fileName⟩
    match ← fs.isPresent path with
    | .error fault => return .error (.unreadableManifest path fault)
    | .ok true => Manifest.load fs path
    | .ok false => return .ok .default

def Command.load (fs : FileSystem m) (input : Path) (manifest : Option Path) :
    m (Except CommandError (Declarations × Config)) := do
  match ← Declarations.load fs input with
  | .error e => return .error e
  | .ok d => return (← Config.load fs input manifest).map fun config => (d, config)

/-! ## Rounds -/

def Declarations.check (d : Declarations) (config : Config) : RoundResult × Memory :=
  (d.process config (Memory.filer fun _ => none)).run .empty

def Declarations.generate (d : Declarations) (config : Config) (fs : FileSystem m) (out : Path) :
    m (RoundResult × OutputDirectory) :=
  (d.process config (OutputDirectory.filer fs)).run (.new out)

/-- Where files go if the call does not say. -/
def Path.defaultOutput (input : Path) : Path := input.directory.join ⟨"generated"⟩

/-! ## What is printed -/

def RoundResult.checkText (r : RoundResult) (d : Declarations) : String :=
  s!"Checked {d.traits.length} trait(s) and {d.hosts.length} host(s): " ++
    s!"{r.generated.length} file(s) would be generated\n"

def RoundResult.generateText (r : RoundResult) (out : OutputDirectory) : String :=
  s!"Generated {out.written.length} file(s) into {out.root.text}\n" ++
    if r.isComplete then ""
    else s!"Skipped {r.skippedTraits} trait(s) and {r.skippedHosts} host(s)\n"

/-! ## Commands -/

def Command.runCheck (fs : FileSystem m) (input : Path) (manifest : Option Path) : m Outcome := do
  match ← Command.load fs input manifest with
  | .error e => return .ofError e
  | .ok (d, config) =>
    let (result, _) := d.check config
    return .ofRound (result.checkText d) result.diagnostics

def Command.runGenerate (fs : FileSystem m) (input : Path) (out manifest : Option Path) :
    m Outcome := do
  match ← Command.load fs input manifest with
  | .error e => return .ofError e
  | .ok (d, config) =>
    let out := out.getD input.defaultOutput
    match ← fs.makeDirectories out with
    | .error fault => return .ofError (.noOutputDirectory out fault)
    | .ok () =>
      let (result, directory) ← d.generate config fs out
      return .ofRound (result.generateText directory) result.diagnostics

def Command.run (fs : FileSystem m) : Command → m Outcome
  | .generate input out manifest => runGenerate fs input out manifest
  | .check input manifest => runCheck fs input manifest

/-! ## Calls -/

def versionText : String := "traitsmith 0.1.0\n"

def helpText : String :=
  "Trait composition for Java by code generation\n\n" ++
  "Usage: traitsmith [OPTIONS] <COMMAND>\n\n" ++
  "Commands:\n" ++
  "  generate <INPUT> [--out <OUT>] [--config <CONFIG>]  " ++
  "Generate interfaces, delegates and host superclasses\n" ++
  "  check <INPUT> [--config <CONFIG>]                   " ++
  "Generate in memory, reporting diagnostics only\n\n" ++
  "Options:\n" ++
  "  -v, --verbose  Say more\n" ++
  "  -h, --help     Print help\n" ++
  "  -V, --version  Print version\n"

def CommandLine.run (fs : FileSystem m) (args : List String) : m Outcome :=
  match Invocation.ofArguments args with
  | .error e => return .ofUsageError e
  | .ok .version => return .ofOutput versionText
  | .ok .help => return .ofOutput helpText
  | .ok (.run command _) => command.run fs

end

end TraitWeaver
