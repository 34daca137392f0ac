import TraitWeaver.Source.Piece

/-!
# Names in one file

In one file a simple name belongs to at most one type; every other type with that simple name is
written in full. A table lists the types of a file, those that come first in the order of
preference before the others, and a simple name belongs to the first type in the list that bears it.

A type that is added with preference goes to the front of the list, any other one to its end,
unless it is there already.
-/

namespace TraitWeaver

/-- The types known in a file of a package, in order of preference. -/
structure NameTable where
  package : String
  names : List DeclaredName
deriving DecidableEq, Repr

namespace NameTable

/-- The table of a file in which no types are known yet. -/
def empty (package : String) : NameTable := ⟨package, []⟩

def add (r : NameTable) (n : DeclaredName) (preferred : Bool) : NameTable :=
  if preferred then { r with names := n :: r.names.erase n }
  else if n ∈ r.names then r
  else { r with names := r.names ++ [n] }

/-- The types that bear a simple name, in order of preference. -/
def candidates (r : NameTable) (simple : String) : List DeclaredName :=
  r.names.filter (·.simple = simple)

/-- The type that a simple name belongs to. -/
def owner? (r : NameTable) (simple : String) : Option DeclaredName :=
  (r.candidates simple).head?

/-- Types of this package are visible in the file without an import. -/
def seesPackage (r : NameTable) (package : String) : Bool :=
  package = "" || package = languagePackage || package = r.package

/-- The type is written by its simple name: it owns the name, or nobody does and it is visible. -/
def isShort (r : NameTable) (n : DeclaredName) : Bool :=
  match r.owner? n.simple with
  | some o => o = n
  | none => r.seesPackage n.package

/-- The known types that own their simple names, in increasing order. -/
def owners (r : NameTable) : List DeclaredName :=
  DeclaredName.sortedSet (r.names.filter fun n => r.owner? n.simple = some n)

def imports (r : NameTable) : List DeclaredName :=
  r.owners.filter (!r.seesPackage ·.package)

def spellName (r : NameTable) (n : DeclaredName) : String :=
  if r.isShort n then n.simple else n.qualified

def spellPiece (r : NameTable) : Piece → String
  | .word text => text
  | .name n => r.spellName n

def spell (r : NameTable) (p : Phrase) : String := String.join (p.map r.spellPiece)

/-- Makes known all the types that a file mentions: first the foreign ones in the order given, then
those of the language package and then those of the file's own package, each of which takes its
simple name from the others. -/
def addAll (r : NameTable) (types : List DeclaredName) : NameTable :=
  let language (n : DeclaredName) : Bool := n.package = languagePackage
  let own (n : DeclaredName) : Bool := n.package = r.package
  let r := (types.filter fun n => !language n && !own n).foldl (·.add · false) r
  let r := (types.filter language).foldl (·.add · true) r
  (types.filter own).foldl (·.add · true) r

end NameTable

end TraitWeaver
