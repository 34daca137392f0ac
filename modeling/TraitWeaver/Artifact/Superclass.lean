import TraitWeaver.Artifact.Basic
import TraitWeaver.Composition

/-!
# The superclass of a host

The superclass implements the interfaces of all composed traits. It declares their constants again,
holds a delegate for each of them and has one method for each group of contributions: a winner
without a body stays abstract, any other one is called through the delegate of its trait.
-/

namespace TraitWeaver.Host

/-- The constants of the traits, each with the trait's constant as its value. -/
def constantMembers (h : Host) : List Member :=
  (HostConstant.ofTraits h.traits).map fun c => .field
    { keywords := [.public, .static, .final]
      type := c.constant.type
      name := c.name
      value := some (.reference (.static (.plain c.owner.name)) c.constant.name) }

/-- The fields with the delegates, each of which is made for the host itself. -/
def delegateMembers (h : Host) (c : Config) : List Member :=
  (h.traits.zip (Trait.delegateFields c h.traits)).map fun (t, name) =>
    let type := t.delegateRef c
    .field ⟨[.private, .final], type, name, some (.constructInferred type [.this])⟩

def dispatchMember (c : Config) (fields : List String) (g : MethodGroup) : Member :=
  let m := g.winner.method
  if m.isAbstract then
    .abstract (m.heading m.name [.public, .abstract])
  else
    let heading := m.heading m.name [.public]
    let delegate := Expr.ownField (fields.getD g.winner.position "")
    .method heading [m.answerWith (.callOn delegate (c.aliasOf m.name) heading.forwarded)]

/-- The file with the superclass of the host. -/
def superclassFile (h : Host) (c : Config) : CompilationUnit :=
  .generated c h.name.package
    { heading :=
        { TypeHeading.ofClass (c.superclassOf h.name.simple) with
          keywords := [.public, .abstract]
          typeParams := h.typeParams c
          superclass := h.superclass.map (·.toRef c)
          interfaces := h.traits.map (·.interfaceRef c) }
      members := h.constantMembers ++ h.delegateMembers c ++
        h.groups.map (dispatchMember c (Trait.delegateFields c h.traits)) }

end TraitWeaver.Host
