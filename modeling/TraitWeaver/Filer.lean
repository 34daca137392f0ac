import TraitWeaver.SortedMap

/-!
# Where generated files go

A filer takes finished files, each of which it creates or refuses. Generation does not depend on
what kind of filer it has; the one that is defined here keeps its files in memory.
-/

namespace TraitWeaver

/-- A finished file: the qualified name of the type in it, the declaration that it was generated
for, and its text. -/
structure SourceFile where
  name : String
  origin : String
  text : String
deriving DecidableEq, Repr

/-- Why a file cannot be read or created. -/
inductive FileFault where
  /-- There is nothing in its place, or no such place. -/
  | missing
  | refused (reason : String)
deriving DecidableEq, Repr

def FileFault.text : FileFault → String
  | missing => "No such file or directory"
  | refused reason => reason

/-- The fault of a second file of one name. -/
def alreadyCreated (name : String) : FileFault := .refused s!"'{name}' was already created"

/-- A place for generated files. -/
structure Filer (m : Type → Type) where
  create : SourceFile → m (Except FileFault Unit)

/-- Files in memory, by the names of their types. -/
abbrev Memory : Type := SortedMap String

namespace Memory

/-- Adds a file, which must not exist already. -/
def create (files : Memory) (name text : String) : Except FileFault Memory :=
  if files.contains name then .error (alreadyCreated name)
  else .ok (files.insert name text)

/-- A filer that keeps files in memory and refuses some names from the outset. -/
def filer (refused : String → Option FileFault) : Filer (StateM Memory) where
  create file := do
    match refused file.name with
    | some fault => return .error fault
    | none =>
      match (← get).create file.name file.text with
      | .ok files => set files; return .ok ()
      | .error fault => return .error fault

end Memory

end TraitWeaver
