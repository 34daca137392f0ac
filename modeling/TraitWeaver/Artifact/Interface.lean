import TraitWeaver.Artifact.Basic

/-!
# The interface of a trait

The interface declares every method that the trait itself declares for composition, and extends the
interfaces that the trait implements.
-/

namespace TraitWeaver.Trait

/-- The methods that the interface declares. -/
def interfaceMethods (t : Trait) : List TraitMethod :=
  t.contributedMethods.filter (!·.isInherited)

/-- The file with the interface of the trait. -/
def interfaceFile (t : Trait) (c : Config) : CompilationUnit :=
  .generated c t.name.package
    { heading :=
        { TypeHeading.ofInterface (c.interfaceOf t.name.simple) with
          typeParams := t.typeParams
          interfaces := t.interfaces.map (·.type.toRef) }
      members := t.interfaceMethods.map fun m => .abstract (m.heading m.name []) }

end TraitWeaver.Trait
