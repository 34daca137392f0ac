import TraitWeaver.Host.Basic
import TraitWeaver.Text.Lowercase

/-!
# Composition

How the contributions of a host's traits become members of one class.

* Methods of one normalized signature form a group; the group has a winner, which is the
  contribution of the preferred trait if there is one, and of the first trait else.
* Type parameters of the superclass come before those of the traits; of parameters of one name the
  first counts.
* Constants that several traits declare under one name are told apart by the traits' qualifiers.
* Each trait's delegate is held in a field with a name of its own.
-/

namespace TraitWeaver

/-! ## Groups of methods -/

/-- A method that a trait contributes to a host. -/
structure Contribution where
  /-- The position of the trait among the traits of the host. -/
  position : Nat
  /-- The position of the method among the methods of the trait. -/
  methodPosition : Nat
  owner : Trait
  method : TraitMethod
deriving DecidableEq, Repr

namespace Contribution

def signature (c : Contribution) : Signature := c.method.key

end Contribution

/-- What the trait at a position contributes, in the order of its methods. -/
def Trait.contributionsAt (owner : Trait) (position : Nat) : List Contribution :=
  (owner.methods.zipIdx.filter (·.1.isContributed)).map fun (method, methodPosition) =>
    { position, methodPosition, owner, method }

/-- All that traits contribute, in the order of the traits and of the methods in each. -/
def Trait.contributions (traits : List Trait) : List Contribution :=
  traits.zipIdx.flatMap fun (owner, position) => owner.contributionsAt position

/-- The contributions of one signature. -/
structure MethodGroup where
  signature : Signature
  winner : Contribution
  /-- The contributions that do not win. -/
  others : List Contribution
deriving DecidableEq, Repr

namespace MethodGroup

/-- All contributions of the group, the winner first. -/
def entries (g : MethodGroup) : List Contribution := g.winner :: g.others

def isShared (g : MethodGroup) : Bool := !g.others.isEmpty

/-- Adds a contribution to the group of its signature, or a new group at the end. -/
def addTo (groups : List MethodGroup) (c : Contribution) (signature : Signature) :
    List MethodGroup :=
  match groups with
  | [] => [⟨signature, c, []⟩]
  | g :: rest =>
    if g.signature = signature then { g with others := g.others ++ [c] } :: rest
    else g :: addTo rest c signature

/-- The groups of all contributions of some traits. -/
def ofTraits (traits : List Trait) : List MethodGroup :=
  (Trait.contributions traits).foldl (fun groups c => addTo groups c c.signature) []

/-- Makes the first contribution of a trait the winner, if the trait has one. -/
def prefer (g : MethodGroup) (trait : String) : MethodGroup :=
  let isOfTrait (c : Contribution) : Bool := c.owner.qualifiedName = trait
  match g.entries.find? isOfTrait with
  | none => g
  | some winner => { g with winner, others := g.entries.eraseP isOfTrait }

/-- The group with the winner that the host prefers for the methods of its name. -/
def settle (h : Host) (g : MethodGroup) : MethodGroup :=
  match h.preferred? g.signature.name with
  | none => g
  | some trait => g.prefer trait

end MethodGroup

namespace Host

/-- Gives each of some groups the winner that the host prefers. -/
def settleAll (h : Host) (groups : List MethodGroup) : List MethodGroup :=
  groups.map (MethodGroup.settle h)

/-- The groups of the host, each with its winner. -/
def groups (h : Host) : List MethodGroup := h.settleAll (MethodGroup.ofTraits h.traits)

/-! ## Type parameters -/

/-- Adds a parameter unless there is one of its name. -/
def addParam (params : List TypeParam) (p : TypeParam) : List TypeParam :=
  if params.any (·.sourceName = p.sourceName) then params else params ++ [p]

end Host

/-- The type parameters of the generated class that give arguments of the superclass, without
repeats. -/
def Superclass.typeParams (s : Superclass) (c : Config) : List TypeParam :=
  (s.argParams c).foldl Host.addParam []

namespace Host

/-- The type parameters of the generated class. -/
def typeParams (h : Host) (c : Config) : List TypeParam :=
  (h.traits.flatMap (·.typeParams)).foldl addParam
    ((h.superclass.map (·.typeParams c)).getD [])

end Host

/-! ## Constants -/

/-- A constant as a host declares it again. -/
structure HostConstant where
  owner : Trait
  constant : TraitConstant
  /-- Another trait has a constant of this name. -/
  isPrefixed : Bool
deriving DecidableEq, Repr

namespace HostConstant

/-- The name of the constant on the host. -/
def name (c : HostConstant) : String :=
  if c.isPrefixed then s!"{c.owner.qualifier}_{c.constant.name}" else c.constant.name

def ofTraits (traits : List Trait) : List HostConstant :=
  let indexed := traits.zipIdx
  indexed.flatMap fun (owner, position) =>
    owner.constants.map fun constant =>
      { owner, constant
        isPrefixed := indexed.any fun (other, position') =>
          position' != position && other.constants.any (·.name = constant.name) }

end HostConstant

/-! ## Fields -/

/-- The names of the fields that hold the traits' delegates. -/
def Trait.delegateFields (c : Config) (traits : List Trait) : List String :=
  traits.foldl (fun names t =>
    names ++ [Text.freshNumbered names (Text.lowerFirst (c.delegateOf t.name.simple))]) []

end TraitWeaver
