import TraitWeaver.Config
import TraitWeaver.Source.Unit
import TraitWeaver.Trait.Basic

/-!
# What generated types share

The names of the types that are generated for a trait, and the forms in which a trait's methods are
declared in them again.
-/

namespace TraitWeaver

namespace Trait

/-- A type beside the trait, with the trait's parameters as arguments. -/
def sibling (t : Trait) (simple : String) : TypeRef :=
  .declared ⟨t.name.package, simple⟩ t.type.args .scalar

def interfaceRef (t : Trait) (c : Config) : TypeRef := t.sibling (c.interfaceOf t.name.simple)

def delegateRef (t : Trait) (c : Config) : TypeRef := t.sibling (c.delegateOf t.name.simple)

end Trait

namespace TraitMethod

/-- The method under a name, without annotations. -/
def heading (m : TraitMethod) (name : String) (keywords : List Keyword) : MethodHeading :=
  { annotations := [], keywords, typeParams := m.typeParams, returns := some m.returns, name
    params := m.params, throws := m.throws }

/-- The method under its own name as it overrides another. -/
def overrideHeading (m : TraitMethod) : MethodHeading :=
  { m.heading m.name [.public] with annotations := [.plain .override] }

/-- A statement that calls something in the place of the method: what the call returns is returned,
if the method returns anything. -/
def answerWith (m : TraitMethod) (call : Expr) : Expr :=
  if m.returns.isVoid then call else .result (some call)

end TraitMethod

def CompilationUnit.generated (c : Config) (package : String) (body : TypeDefinition) :
    CompilationUnit :=
  { package, header := c.header, body }

end TraitWeaver
