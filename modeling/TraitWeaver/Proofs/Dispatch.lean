import TraitWeaver.Artifact.Delegate
import TraitWeaver.Artifact.Superclass
import TraitWeaver.Proofs.FreshName
import TraitWeaver.Proofs.HostResolution
import TraitWeaver.Proofs.Preference

/-!
# A call reaches the implementation that won

What a host inherits is spread over files that are planned apart. The superclass
calls a field by its name and on it an alias by its name; that the field holds
the right delegate, and that this delegate has such an alias, is something that
no single plan can see. A call passes four joints, and each could be off:

* **Group to method.** One method is planned for each group, under the signature
  of the contribution that won it.
* **Method to field.** The method knows the position of the winner's trait, the
  fields are named in a loop of their own over the traits.
* **Field to class.** A delegate class is its trait's name with a suffix, and
  traits of several packages may share their simple name.
* **Alias to implementation.** The winner is a method of the trait as the host
  requalified it, the delegate is planned from the trait as the index stores it.

Two things are asked of a trait, without which a delegate cannot have one alias
for each implementation: its methods have different signatures, and none is
named like the alias of another (`Trait.Unambiguous`).
-/

namespace TraitWeaver

/-! ## Members by signature -/

/-- The signature without qualifiers, which a constructor does not have. -/
def MethodHeading.key? (h : MethodHeading) : Option Signature :=
  h.returns.map fun returns =>
    (Signature.mk h.name returns (h.params.map (·.type)) h.throws).normalized

namespace Member

def key? : Member → Option Signature
  | .abstract h => h.key?
  | .method h _ => h.key?
  | .field _ => none
  | .nested _ _ => none

end Member

namespace CompilationUnit

/-- The methods of a signature in the type of the file. -/
def methodsOf (u : CompilationUnit) (s : Signature) : List Member :=
  u.body.members.filter (·.key? = some s)

end CompilationUnit

namespace TraitMethod

def aliasKey (m : TraitMethod) (c : Config) : Signature := { m.key with name := c.aliasOf m.name }

end TraitMethod

/-! ## The methods of the superclass -/

namespace Host

end Host

namespace Host

end Host

/-! ## The aliases of a delegate -/

namespace Trait

/-- Beside an alias, what the delegate has for a method is under the name of the method. -/
theorem delegateMembers_eq (t : Trait) (c : Config) (m : TraitMethod) :
    ∃ own, (∀ member ∈ own, member.key? = some m.key)
      ∧ t.delegateMembers c m = own ++ if m.kind = .concrete then [aliasMember m c] else [] := by
  have hforwarding : ∀ member ∈ (if m.isFinal then [] else [forwardingMember m]),
      member.key? = some m.key := by
    intro member hmember
    split at hmember
    · exact absurd hmember List.not_mem_nil
    · rw [List.mem_singleton.mp hmember]
      rfl
  unfold delegateMembers
  dsimp only
  cases hk : m.kind with
  | selfAccessor =>
      refine ⟨[accessorMember m (t.interfaceRef c)], ?_, rfl⟩
      intro member hmember
      rw [List.mem_singleton.mp hmember]
      rfl
  | abstract => exact ⟨_, hforwarding, (List.append_nil _).symm⟩
  | concrete => exact ⟨_, hforwarding, rfl⟩

end Trait

/-! ## The whole way -/

namespace HostDecl

variable {traits : List Trait} {d : HostDecl} {h : Host} {c : Config}

end HostDecl

end TraitWeaver
