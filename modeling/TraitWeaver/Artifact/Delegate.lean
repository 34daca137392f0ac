import TraitWeaver.Artifact.Basic

/-!
# The delegate of a trait

The delegate is a subclass of the trait that holds the host, of which it knows that it implements
the trait's interface. Under its own name a method is passed on to the host, so that a method of the
trait that calls another one reaches whichever implementation the host has. The trait's own
implementation of a method can be called under its alias.
-/

namespace TraitWeaver.Trait

def hostField : String := "target"

/-- A method that passes its call on to the host. -/
def forwardingMember (m : TraitMethod) : Member :=
  let heading := m.overrideHeading
  .method heading
    [m.answerWith (.callOn (.ownField hostField) m.name heading.forwarded)]

/-- A method that calls the trait's own implementation of a method. -/
def aliasMember (m : TraitMethod) (c : Config) : Member :=
  let heading := m.heading (c.aliasOf m.name) [.public]
  .method heading [m.answerWith (.call .super m.name heading.forwarded)]

/-- The self accessor returns the host, cast unless it is of the right type already. -/
def accessorMember (m : TraitMethod) (targetType : TypeRef) : Member :=
  let target := Expr.ownField hostField
  let value := if m.returns = targetType then target else .cast m.returns target
  .method m.overrideHeading [.result (some value)]

/-- What the delegate has for a method of the trait. A final method cannot be overridden. -/
def delegateMembers (t : Trait) (c : Config) (m : TraitMethod) : List Member :=
  let forwarding := if m.isFinal then [] else [forwardingMember m]
  match m.kind with
  | .selfAccessor => [accessorMember m (t.interfaceRef c)]
  | .abstract => forwarding
  | .concrete => forwarding ++ [aliasMember m c]

/-- The file with the delegate of the trait. -/
def delegateFile (t : Trait) (c : Config) : CompilationUnit :=
  let name := c.delegateOf t.name.simple
  let target := t.interfaceRef c
  .generated c t.name.package
    { heading :=
        { TypeHeading.ofClass name with
          typeParams := t.typeParams
          superclass := some t.type.toRef }
      members :=
        .field ⟨[.private, .final], target, hostField, none⟩ ::
        .method
          { MethodHeading.ofConstructor name with
            keywords := [.public]
            params := [⟨target, hostField⟩] }
          [.assign (.ownField hostField) (.var hostField)] ::
        t.methods.flatMap (t.delegateMembers c) }

end TraitWeaver.Trait
