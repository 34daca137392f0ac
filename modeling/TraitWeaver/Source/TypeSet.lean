import TraitWeaver.Declaration.SourceType

/-!
# Sets of declared types

A file has to know the types that it mentions. They are gathered into a set in which a type counts
as known by its name alone, and into which it goes without its arguments. Two walks fill such a set,
one over a reference and one over a spelling that need not stand for any reference.
-/

namespace TraitWeaver

/-- A set of declared types, as the list of its entries. -/
structure TypeSet where
  types : List DeclaredType
deriving DecidableEq

namespace TypeSet

def empty : TypeSet := ⟨[]⟩

def names (s : TypeSet) : List DeclaredName := s.types.map (·.name)

/-- The type is an entry, with whatever arguments. -/
def contains (s : TypeSet) (t : DeclaredType) : Bool := s.types.any (·.sameType t)

/-- Puts a type in its place among increasing ones. -/
def place (t : DeclaredType) : List DeclaredType → List DeclaredType
  | [] => [t]
  | u :: rest =>
    match t.name.compare u.name with
    | .lt => t :: u :: rest
    | .eq => u :: rest
    | .gt => u :: place t rest

/-- Takes in a type without its arguments, unless no file has to know it or it is an entry already.
-/
def insert (s : TypeSet) (t : DeclaredType) : TypeSet :=
  if !t.name.isImportable then s
  else if s.contains t then s
  else ⟨place (.plain t.name) s.types⟩

end TypeSet

/-- Takes in all that a reference mentions, each node before those in it. -/
def TypeRef.gather (t : TypeRef) (s : TypeSet) : TypeSet :=
  t.nodes.foldl (fun s u => u.declared?.elim s s.insert) s

namespace SourceType

mutual

/-- Takes in all that a spelling mentions; what is no name is passed over. -/
def gather : SourceType → TypeSet → TypeSet
  | .primitive _, s | .void, s => s
  | .declared name args, s =>
    gatherAll args
      (match DeclaredName.ofQualified name with
        | .ok n => s.insert (.plain n)
        | .error _ => s)
  | .array component, s => gather component s
  | .typeVariable _ upper lower, s | .wildcard upper lower, s =>
    gatherBound lower (gatherBound upper s)
  | .intersection bounds, s => gatherAll bounds s

def gatherAll : List SourceType → TypeSet → TypeSet
  | [], s => s
  | t :: ts, s => gatherAll ts (gather t s)

def gatherBound : Option SourceType → TypeSet → TypeSet
  | none, s => s
  | some t, s => gather t s

end

end SourceType

end TraitWeaver
