/-!
# Maps with sorted keys

A finite map from texts, as the list of its entries in increasing order of the keys. The order of
keys is by code point.
-/

namespace TraitWeaver

/-- A finite map from texts. -/
structure SortedMap (α : Type) where
  entries : List (String × α)
deriving DecidableEq, Repr

namespace SortedMap

variable {α : Type}

def empty : SortedMap α := ⟨[]⟩

def get? (m : SortedMap α) (key : String) : Option α := m.entries.lookup key

def contains (m : SortedMap α) (key : String) : Bool := (m.get? key).isSome

/-- Puts an entry in its place in a list of entries. -/
def insertEntry (key : String) (value : α) : List (String × α) → List (String × α)
  | [] => [(key, value)]
  | entry :: rest =>
    match compare key entry.1 with
    | .lt => (key, value) :: entry :: rest
    | .eq => (key, value) :: rest
    | .gt => entry :: insertEntry key value rest

/-- Puts a value under a key, in the place of the one that is there. -/
def insert (m : SortedMap α) (key : String) (value : α) : SortedMap α :=
  ⟨insertEntry key value m.entries⟩

def keys (m : SortedMap α) : List String := m.entries.map (·.1)

/-- The values in increasing order of their keys. -/
def values (m : SortedMap α) : List α := m.entries.map (·.2)

def size (m : SortedMap α) : Nat := m.entries.length

def isEmpty (m : SortedMap α) : Bool := m.entries.isEmpty

end SortedMap

end TraitWeaver
