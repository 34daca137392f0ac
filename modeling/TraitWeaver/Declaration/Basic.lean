import TraitWeaver.Declaration.SourceType

/-!
# Declarations of traits and hosts

What a compiler front end has found out about the classes of one round, as it is handed in: nothing
here has been checked. A trait is a class whose members are composed into hosts; a host is a class
that names the traits it composes.
-/

namespace TraitWeaver

/-- A modifier on a declared member. -/
inductive Modifier where
  | «public»
  | «protected»
  | «private»
  | abstract
  | static
  | final
  | default
deriving DecidableEq, Repr

/-- A type parameter that a declaration introduces. -/
structure TypeParamDecl where
  name : String
  bounds : List SourceType

namespace TypeParamDecl

/-- The parameter with its bounds resolved, each intersection taken apart. -/
def resolve (d : TypeParamDecl) : Except TypeError TypeParam := do
  if d.name = "" then throw .emptyName
  let bounds ← d.bounds.mapM fun bound => SourceType.resolveUpper (some bound)
  return ⟨.plain d.name, bounds.flatten, none⟩

end TypeParamDecl

/-- A parameter of a declared method. -/
structure ParameterDecl where
  name : String
  type : SourceType

/-- A method of a trait or of an interface. -/
structure MethodDecl where
  name : String
  modifiers : List Modifier
  typeParams : List TypeParamDecl
  returns : SourceType
  params : List ParameterDecl
  /-- The last parameter takes any number of arguments. -/
  varargs : Bool
  throws : List SourceType
  /-- The method is meant to return the host as a value of the trait's interface. -/
  selfAccessor : Bool

def MethodDecl.has (m : MethodDecl) (modifier : Modifier) : Bool := m.modifiers.contains modifier

/-- A field of a trait. -/
structure FieldDecl where
  name : String
  type : SourceType
  modifiers : List Modifier

def FieldDecl.has (f : FieldDecl) (modifier : Modifier) : Bool := f.modifiers.contains modifier

/-- A member of a trait. -/
inductive MemberDecl where
  | method (decl : MethodDecl)
  | constructor (params : List ParameterDecl)
  | field (decl : FieldDecl)
  /-- Any other kind of member, with words that say which. -/
  | other (name description : String)

/-- An interface that a trait implements: its own parameters, and what the trait puts for them. -/
structure InterfaceDecl where
  name : String
  typeParams : List String
  args : List SourceType
  methods : List MethodDecl

/-- A class that is declared as a trait. -/
structure TraitDecl where
  name : String
  typeParams : List TypeParamDecl
  superclass : Option SourceType
  interfaces : List InterfaceDecl
  members : List MemberDecl

/-- How a type argument of a host's superclass is given. -/
inductive ArgumentDecl where
  /-- By a type. -/
  | explicit (type : SourceType)
  /-- By a type parameter of the generated class with this name. -/
  | named (name : String)
  /-- By a type parameter of the generated class with a name made up for it. -/
  | auto

/-- The class that a host wants to extend. -/
structure SuperclassDecl where
  name : String
  typeParams : List TypeParamDecl
  args : List ArgumentDecl

/-- Which trait wins where several give a method of this name. -/
structure PreferenceDecl where
  method : String
  winner : String

/-- A class that composes traits, in this order. -/
structure HostDecl where
  name : String
  traits : List String
  superclass : Option SuperclassDecl
  preferences : List PreferenceDecl

/-- All that one round of generation is about. -/
structure Declarations where
  traits : List TraitDecl
  hosts : List HostDecl

end TraitWeaver
