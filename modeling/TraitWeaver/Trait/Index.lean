import TraitWeaver.Declaration.Error
import TraitWeaver.SortedMap
import TraitWeaver.Trait.Basic

/-!
# Finding traits by name

A trait is found by its qualified name, or by its simple name if no other trait shares it.
-/

namespace TraitWeaver

/-- The trait that a simple name means among several, if only one of them has it. -/
def Trait.findSimple (traits : List Trait) (name : String) : Except DeclarationError Trait :=
  match traits.filter (·.name.simple = name) with
  | [] => .error (.unknownTrait name)
  | [t] => .ok t
  | candidates => .error (.ambiguousTrait name (candidates.map (·.qualifiedName)))

/-- The trait that a name means among several. -/
def Trait.findAmong (traits : List Trait) (name : String) : Except DeclarationError Trait :=
  match traits.find? (·.qualifiedName = name) with
  | some t => .ok t
  | none => findSimple traits name

/-- The traits of a round, by their qualified names. -/
structure TraitIndex where
  byName : SortedMap Trait

namespace TraitIndex

def empty : TraitIndex := ⟨.empty⟩

/-- The traits in increasing order of their qualified names. -/
def traits (l : TraitIndex) : List Trait := l.byName.values

def get? (l : TraitIndex) (qualifiedName : String) : Option Trait := l.byName.get? qualifiedName

/-- Adds a trait, in the place of the one with its name. -/
def insert (l : TraitIndex) (t : Trait) : TraitIndex := ⟨l.byName.insert t.qualifiedName t⟩

/-- The traits of a list, of which the last one of a name counts. -/
def ofList (traits : List Trait) : TraitIndex := traits.foldl insert empty

/-- The trait that a name means: the one that is kept under it, or else the only one with this
simple name. -/
def find (l : TraitIndex) (name : String) : Except DeclarationError Trait :=
  match l.get? name with
  | some t => .ok t
  | none => Trait.findSimple l.traits name

end TraitIndex

end TraitWeaver
