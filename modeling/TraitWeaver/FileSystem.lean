import TraitWeaver.Filer
import TraitWeaver.Path

/-!
# File systems

What a command needs of a file system, so that it does not depend on there being a real one; how a
directory is made together with those on the way to it; and the filer that puts generated files into
directories.
-/

namespace TraitWeaver

/-- A file system. What it refuses, it refuses with a reason. -/
structure FileSystem (m : Type → Type) where
  /-- The text in a file. -/
  read : Path → m (Except FileFault String)
  /-- Whether a path leads to a file or directory. -/
  isPresent : Path → m (Except FileFault Bool)
  /-- Makes a directory, unless it exists. The directory that it stands in must exist. -/
  makeDirectory : Path → m (Except FileFault Unit)
  /-- A file that is open for writing. -/
  Handle : Type
  /-- Makes a file with nothing in it, in the place of what is there. The directory must exist. -/
  create : Path → m (Except FileFault Handle)
  /-- Puts a text into a file that has been created. -/
  write : Handle → String → m (Except FileFault Unit)

namespace FileSystem

variable {m : Type → Type} [Monad m]

/-- Makes the first of these directories. If the way there is missing, it is made from the others
before a second try. -/
def makeFirst (fs : FileSystem m) : List Path → m (Except FileFault Unit)
  | [] => return .ok ()
  | path :: way => do
    match ← fs.makeDirectory path with
    | .error .missing =>
      match ← fs.makeFirst way with
      | .ok () => fs.makeDirectory path
      | .error fault => return .error fault
    | result => return result

/-- Makes a directory and those on the way to it, unless they exist. The empty path asks for
nothing. -/
def makeDirectories (fs : FileSystem m) (path : Path) : m (Except FileFault Unit) :=
  fs.makeFirst path.lineage

/-- Creates a file and makes the directories that it needs. -/
def createFile (fs : FileSystem m) (path : Path) : m (Except FileFault fs.Handle) := do
  let made ← match path.parent? with
    | none => pure (.ok ())
    | some directory => fs.makeDirectories directory
  match made with
  | .ok () => fs.create path
  | .error fault => return .error fault

end FileSystem

/-- A directory that generated files go into. -/
structure OutputDirectory where
  root : Path
  /-- The names of the types whose files have been asked for. -/
  requested : List String
  /-- The files that have been created, the last one first, whether or not their texts followed. -/
  written : List Path
deriving DecidableEq, Repr

namespace OutputDirectory

/-- A directory in which no file has been created yet. -/
def new (root : Path) : OutputDirectory := ⟨root, [], []⟩

def pathOf (d : OutputDirectory) (qualifiedName : String) : Path :=
  d.root.join (.ofTypeName qualifiedName)

/-- Takes down that the file of a type is asked for, which may happen once. -/
def request (d : OutputDirectory) (qualifiedName : String) : Except FileFault OutputDirectory :=
  if qualifiedName ∈ d.requested then .error (alreadyCreated qualifiedName)
  else .ok { d with requested := qualifiedName :: d.requested }

/-- Takes down that a file has been created. -/
def addWritten (d : OutputDirectory) (path : Path) : OutputDirectory :=
  { d with written := path :: d.written }

section

variable {m : Type → Type} [Monad m]

/-- The filer that writes into the directory. Files of earlier runs are replaced. A file is taken
down as soon as it has been created, and stays so if its text is refused. -/
def filer (fs : FileSystem m) : Filer (StateT OutputDirectory m) where
  create file := do
    let d ← get
    match d.request file.name with
    | .error fault => return .error fault
    | .ok next =>
      set next
      let path := d.pathOf file.name
      match ← (fs.createFile path : m (Except FileFault fs.Handle)) with
      | .error fault => return .error fault
      | .ok handle =>
        modify (·.addWritten path)
        fs.write handle file.text

end

end OutputDirectory

end TraitWeaver
