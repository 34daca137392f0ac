import TraitWeaver.Text

/-!
# Paths

A path is a text whose parts are separated by slashes. Empty parts and single dots say nothing, save
for a dot that the path begins with. `Path.ofTypeName` is where the file of a generated type goes.
-/

namespace TraitWeaver

/-- A path of a file or directory. -/
structure Path where
  text : String
deriving DecidableEq, Repr

namespace Path

/-- The path begins at the root of the file system. -/
def isAbsolute (p : Path) : Bool := p.text.toList.head? = some '/'

/-- A path below another one. A path that is absolute stands for itself. -/
def join (base p : Path) : Path :=
  if p.isAbsolute then p
  else if base.text = "" || base.text.toList.getLast? = some '/' then ⟨base.text ++ p.text⟩
  else ⟨base.text ++ "/" ++ p.text⟩

def pieces (p : Path) : List String := Text.pieces '/' p.text

def isIdle (piece : String) : Bool := piece = "" || piece = "."

/-- The parts of a path, which lead from where it begins to where it ends. -/
def parts (p : Path) : List String := p.pieces.filter (!isIdle ·)

/-- The pieces without those at the end that say nothing. The first piece of several is kept: it
tells where the path begins. -/
def trim : List String → List String
  | [] => []
  | first :: rest => first :: (rest.reverse.dropWhile isIdle).reverse

def ofPieces (pieces : List String) : Path :=
  if pieces = [""] then ⟨"/"⟩ else ⟨"/".intercalate pieces⟩

/-- The directory that the last part of a path stands in. The root of the file system and the empty
path stand in none. -/
def parent? (p : Path) : Option Path :=
  match trim p.pieces with
  | [] | [""] => none
  | pieces => some (if pieces.length = 1 then ⟨""⟩ else ofPieces (trim pieces.dropLast))

/-- The path that these pieces, given in reverse, lead along, and the directories on the way there,
the nearest first. Where paths begin is not among them. -/
def lineageOf : List String → List Path
  | [] => []
  | [first] => if first = "" then [] else [⟨first⟩]
  | piece :: rest =>
    if isIdle piece then lineageOf rest
    else ofPieces (piece :: rest).reverse :: lineageOf rest

/-- A path as it is written, and after it the directories that it stands in, the nearest first. -/
def lineage (p : Path) : List Path :=
  match lineageOf p.pieces.reverse with
  | [] => []
  | _ :: directories => p :: directories

def directory (p : Path) : Path := p.parent?.getD ⟨"."⟩

/-- Where a type of a qualified name goes: each package is a directory. -/
def ofTypeName (qualifiedName : String) : Path :=
  ⟨String.ofList (qualifiedName.toList.map fun c => if c = '.' then '/' else c) ++ ".java"⟩

end Path

end TraitWeaver
