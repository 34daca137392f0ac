import TraitWeaver.Signature

/-!
# Traits

A trait that has been checked: what it contributes to the hosts that compose it. Every type variable
in it carries the trait's qualifier, which keeps variables of different traits apart on a host.
-/

namespace TraitWeaver

/-- How a method of a trait takes part in composition. -/
inductive MethodKind where
  /-- It has no body, and the host has to give one. -/
  | abstract
  /-- It has a body. -/
  | concrete
  /-- It gives a trait's body access to the host, and takes no part in composition. -/
  | selfAccessor
deriving DecidableEq, Repr

def MethodKind.text : MethodKind → String
  | abstract => "Abstract"
  | concrete => "Concrete"
  | selfAccessor => "SelfAccessor"

/-- A method that a trait contributes. -/
structure TraitMethod where
  name : String
  typeParams : List TypeParam
  returns : TypeRef
  params : List Parameter
  throws : List TypeRef
  kind : MethodKind
  isFinal : Bool
  /-- The interface that the trait has the method from. -/
  inheritedFrom : Option String
deriving DecidableEq, Repr

namespace TraitMethod

def signature (m : TraitMethod) : Signature := ⟨m.name, m.returns, m.params.map (·.type), m.throws⟩

/-- The signature that decides which methods are one method of the host. -/
def key (m : TraitMethod) : Signature := m.signature.normalized

/-- The method has no body that a host could use. -/
def isAbstract (m : TraitMethod) : Bool := m.kind != .concrete

def isInherited (m : TraitMethod) : Bool := m.inheritedFrom.isSome

/-- The method takes part in composition. -/
def isContributed (m : TraitMethod) : Bool := m.kind != .selfAccessor

/-- Moves the method's variables from one qualifier to another. -/
def requalify (m : TraitMethod) (old new : String) : TraitMethod :=
  { m with
    typeParams := m.typeParams.map (·.requalify old new)
    returns := m.returns.requalify old new
    params := m.params.map fun p => ⟨p.type.requalify old new, p.name⟩
    throws := m.throws.map (·.requalify old new) }

end TraitMethod

/-- A constant that a trait declares. -/
structure TraitConstant where
  name : String
  type : TypeRef
deriving DecidableEq, Repr

/-- What a trait puts for the parameters of an interface, by the names of the parameters. -/
abbrev Instantiation : Type := List (String × TypeRef)

/-- An interface that a trait implements. -/
structure TraitInterface where
  type : DeclaredType
  instantiation : Instantiation
deriving DecidableEq, Repr

/-- A trait that has been checked. -/
structure Trait where
  /-- The class that declares the trait, with its own parameters as arguments. -/
  type : DeclaredType
  qualifier : String
  typeParams : List TypeParam
  /-- The methods that the trait declares, then those that it has from interfaces. -/
  methods : List TraitMethod
  constants : List TraitConstant
  interfaces : List TraitInterface
deriving DecidableEq, Repr

namespace Trait

def name (t : Trait) : DeclaredName := t.type.name

def qualifiedName (t : Trait) : String := t.name.qualified

/-- The methods that take part in composition. -/
def contributedMethods (t : Trait) : List TraitMethod := t.methods.filter (·.isContributed)

/-- The method that gives the trait's bodies access to the host. -/
def selfAccessor? (t : Trait) : Option TraitMethod := t.methods.find? (·.kind = .selfAccessor)

/-- The trait contributes a method of this name. -/
def contributes (t : Trait) (name : String) : Bool := t.contributedMethods.any (·.name = name)

/-- The trait with all its variables under another qualifier. -/
def requalify (t : Trait) (new : String) : Trait :=
  let old := t.qualifier
  { type := ⟨t.type.name, t.type.args.map (·.requalify old new)⟩
    qualifier := new
    typeParams := t.typeParams.map (·.requalify old new)
    methods := t.methods.map (·.requalify old new)
    constants := t.constants.map fun c => ⟨c.name, c.type.requalify old new⟩
    interfaces := t.interfaces.map fun i =>
      { type := ⟨i.type.name, i.type.args.map (·.requalify old new)⟩
        instantiation := i.instantiation.map fun (name, type) => (name, type.requalify old new) } }

end Trait

end TraitWeaver
