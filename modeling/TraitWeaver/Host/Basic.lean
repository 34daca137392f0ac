import TraitWeaver.Config
import TraitWeaver.SortedMap
import TraitWeaver.Trait.Basic

/-!
# Hosts

A host that has been checked: the traits that it composes, the class that it wants to extend, and
which trait wins for a method that several traits give.
-/

namespace TraitWeaver

/-- How a type argument of a host's superclass is given. -/
inductive SuperclassArgument where
  | explicit (type : TypeRef)
  /-- By a type parameter of the generated class. -/
  | named (name : String)
  /-- By a type parameter of the generated class that is named after the position. -/
  | auto
deriving DecidableEq, Repr

namespace SuperclassArgument

def text : SuperclassArgument → String
  | explicit _ => "Explicit"
  | named _ => "Named"
  | auto => "Auto"

/-- The name of the type parameter that gives the argument at a position. -/
def paramName? (c : Config) (position : Nat) : SuperclassArgument → Option String
  | explicit _ => none
  | named name => some name
  | auto => some (c.autoParameterName position)

def toRef (c : Config) (position : Nat) : SuperclassArgument → TypeRef
  | explicit type => type
  | named name => (TypeParam.plain name).toRef
  | auto => (TypeParam.plain (c.autoParameterName position)).toRef

end SuperclassArgument

/-- The class that a host wants to extend. Its own parameters, if they are known, stand in the order
of the arguments. -/
structure Superclass where
  name : DeclaredName
  params : List TypeParam
  args : List SuperclassArgument
deriving DecidableEq, Repr

namespace Superclass

def argRefs (s : Superclass) (c : Config) : List TypeRef :=
  s.args.zipIdx.map fun (arg, position) => arg.toRef c position

def toRef (s : Superclass) (c : Config) : TypeRef := .declared s.name (s.argRefs c) .scalar

/-- What is put for the parameters of the class, by their names. -/
def substitution (s : Superclass) (c : Config) : Instantiation :=
  (s.params.map (·.var.name)).zip (s.argRefs c)

/-- The bounds of the parameter at a position, in terms of the arguments. -/
def boundsAt (s : Superclass) (c : Config) (position : Nat) : List TypeRef :=
  match s.params[position]? with
  | none => []
  | some p => p.upper.map (·.rewrite fun q => (s.substitution c).lookup q.var.name)

/-- The type parameters of the generated class that give arguments, in the order of the arguments,
each with the bounds of the parameter that it stands for. -/
def argParams (s : Superclass) (c : Config) : List TypeParam :=
  s.args.zipIdx.filterMap fun (arg, position) =>
    (arg.paramName? c position).map fun name => ⟨.plain name, s.boundsAt c position, none⟩

end Superclass

/-- A host that has been checked. -/
structure Host where
  name : DeclaredName
  /-- The composed traits, in the order of composition. -/
  traits : List Trait
  superclass : Option Superclass
  /-- The qualified name of the trait that wins for a method, by the name of the method. -/
  preferences : SortedMap String
deriving DecidableEq, Repr

namespace Host

def qualifiedName (h : Host) : String := h.name.qualified

/-- The trait that wins for the methods of a name. -/
def preferred? (h : Host) (method : String) : Option String := h.preferences.get? method

end Host

end TraitWeaver
