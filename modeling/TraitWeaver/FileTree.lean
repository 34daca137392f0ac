import TraitWeaver.FileSystem

/-!
# File trees

A file system in memory: the files and directories below a root, one of which is the working
directory, where every path begins that is not absolute. With it commands can be run, and talked
about, without touching any file.
-/

namespace TraitWeaver

/-- Where a file or directory is: the names that lead there from the root. -/
abbrev Location : Type := List String

/-- What is at a location. -/
inductive FileNode where
  | directory
  | file (text : String)
deriving DecidableEq, Repr

/-- The files and directories below a root. -/
structure FileTree where
  /-- The location of the working directory. -/
  start : Location
  nodes : List (Location × FileNode)
deriving DecidableEq, Repr

namespace FileTree

/-- A tree with a working directory in which there is nothing. Beside it there is only the null
device, a file that reads as empty. -/
def fresh : FileTree where
  start := ["tmp", "session"]
  nodes := [
    (["tmp"], .directory), (["tmp", "session"], .directory),
    (["dev"], .directory), (["dev", "null"], .file "")]

def get? (t : FileTree) (l : Location) : Option FileNode :=
  if l = [] then some .directory else t.nodes.lookup l

/-- Puts something at a location, in the place of what is there. -/
def put (t : FileTree) (l : Location) (node : FileNode) : FileTree :=
  { t with nodes := (l, node) :: t.nodes.filter (·.1 != l) }

/-- The texts of the files below the working directory, under the names that lead to them from
there. -/
def files (t : FileTree) : List (Location × String) :=
  t.nodes.filterMap fun (l, node) =>
    match node with
    | .directory => none
    | .file text => if t.start.isPrefixOf l then some (l.drop t.start.length, text) else none

/-! ## Paths -/

/-- The most bytes that a path can have. -/
def pathLimit : Nat := 4095

/-- The most bytes that a name can have. -/
def nameLimit : Nat := 255

def invalidPath : FileFault := .refused "Invalid path"

def pathTooLong : FileFault := .refused "File name too long"

def notADirectory : FileFault := .refused "Not a directory"

def isADirectory : FileFault := .refused "Is a directory"

def alreadyExists : FileFault := .refused "File exists"

/-- Refuses paths that lead nowhere whatever there is. -/
def checkPath (p : Path) : Except FileFault Unit :=
  if p.text = "" then .error .missing
  else if p.text.toList.contains '\x00' then .error invalidPath
  else if pathLimit < p.text.utf8ByteSize then .error pathTooLong
  else .ok ()

/-- Where a piece of a path leads from a directory. Above the root is the root. -/
def follow (t : FileTree) (l : Location) (piece : String) : Except FileFault Location :=
  match t.get? l with
  | none => .error .missing
  | some (.file _) => .error notADirectory
  | some .directory =>
    if Path.isIdle piece then .ok l
    else if piece = ".." then .ok l.dropLast
    else if nameLimit < piece.utf8ByteSize then .error pathTooLong
    else .ok (l ++ [piece])

/-- Where pieces of a path lead. Everything before the last of them must exist. -/
def walk (t : FileTree) (p : Path) (pieces : List String) : Except FileFault Location := do
  checkPath p
  pieces.foldlM t.follow (if p.isAbsolute then [] else t.start)

/-- Where a path leads. A slash at its end asks for a directory. -/
def locate (t : FileTree) (p : Path) : Except FileFault Location := t.walk p p.pieces

/-! ## The file system -/

def read (t : FileTree) (p : Path) : Except FileFault String := do
  match t.get? (← t.locate p) with
  | some (.file text) => return text
  | some .directory => throw isADirectory
  | none => throw .missing

def isPresent (t : FileTree) (p : Path) : Except FileFault Bool :=
  match t.locate p with
  | .ok l => .ok (t.get? l).isSome
  | .error .missing => .ok false
  | .error fault => .error fault

/-- Makes a directory, unless it exists. Slashes at the end of the path say nothing. -/
def makeDirectory (t : FileTree) (p : Path) : Except FileFault FileTree := do
  let l ← t.walk p (p.pieces.reverse.dropWhile (· = "")).reverse
  match t.get? l with
  | none => return t.put l .directory
  | some .directory => return t
  | some (.file _) => throw alreadyExists

/-- Makes an empty file, and tells where it is. -/
def create (t : FileTree) (p : Path) : Except FileFault (Location × FileTree) := do
  let l ← t.locate p
  match t.get? l with
  | some .directory => throw isADirectory
  | _ => return (l, t.put l (.file ""))

/-- Applies a change that may be refused, which leaves the tree as it is then. -/
def attempt {α : Type} (change : FileTree → Except FileFault (α × FileTree)) :
    StateM FileTree (Except FileFault α) := do
  match change (← get) with
  | .ok (a, t) => set t; return .ok a
  | .error fault => return .error fault

/-- A tree as a file system. An open file is known by its location, where its text can always be
put. -/
def fileSystem : FileSystem (StateM FileTree) where
  read p := return (← get).read p
  isPresent p := return (← get).isPresent p
  makeDirectory p := attempt fun t => return ((), ← t.makeDirectory p)
  Handle := Location
  create p := attempt (·.create p)
  write l text := do
    modify (·.put l (.file text))
    return .ok ()

/-- Adds a file with the directories that it needs, unless it cannot be there. -/
def add (p : Path) (text : String) : StateM FileTree Unit := do
  match ← fileSystem.createFile p with
  | .ok l => discard (fileSystem.write l text)
  | .error _ => return ()

/-- The fresh tree with files under paths, of which those that cannot be there are left out. -/
def ofFiles (files : List (Path × String)) : FileTree :=
  files.foldl (fun t (p, text) => ((add p text).run t).2) fresh

end FileTree

end TraitWeaver
