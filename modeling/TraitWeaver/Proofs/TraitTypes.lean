import TraitWeaver.Proofs.Conversion
import TraitWeaver.Proofs.TraitResolution

/-!
# What all types of a trait have in common

A trait has types in many places: in bounds of its parameters, in its methods and their
parameters, in its interfaces, and in what those bring along. But there are only three
ways for one to get there. It has been spelled somewhere and is put into the terms of the
trait, it is a type parameter, or it is the root of the hierarchy where an interface has
no arguments.

A property that holds of types in all three ways (`TypeRef.HoldsIn`) therefore holds
everywhere in a trait, and is followed through a declaration here once and for all. The
only exception is the last parameter of a method, which may be marked on top of that.
-/

namespace TraitWeaver

/-- The property is one of types in the terms of a trait, as long as it is one of what the trait puts
for parameters of interfaces. -/
structure TypeRef.HoldsIn (q : String) (P : TypeRef → Prop) : Prop where
  root : P (.plain .root)
  spelled : ∀ {s : SourceType} {r : TypeRef} {inst : Instantiation}, s.ResolvesTo r →
    (∀ e ∈ inst, P e.2) → P ((r.instantiate inst).qualify q)
  param : ∀ {name : String} {upper : List TypeRef}, name ≠ TypeVar.wildcardName →
    (∀ b ∈ upper, P b) → P (.param ⟨name, some q⟩ upper none .scalar)

/-- The property is one of all types in the method, the marker of its last parameter apart. -/
structure TraitMethod.Holds (P : TypeRef → Prop) (m : TraitMethod) : Prop where
  typeParams : ∀ p ∈ m.typeParams, P p.toRef
  returns : P m.returns
  params : ∀ p ∈ m.params, ∃ type, P type ∧ (p.type = type ∨ p.type = type.markVarargs)
  throws : ∀ r ∈ m.throws, P r

/-- The property is one of all types in the trait. Constants are left out, since their types are not
in the terms of the trait. -/
structure Trait.Holds (P : TypeRef → Prop) (t : Trait) : Prop where
  args : ∀ r ∈ t.type.args, P r
  typeParams : ∀ p ∈ t.typeParams, P p.toRef
  methods : ∀ m ∈ t.methods, m.Holds P
  interfaceArgs : ∀ i ∈ t.interfaces, ∀ r ∈ i.type.args, P r
  instantiations : ∀ i ∈ t.interfaces, ∀ e ∈ i.instantiation, P e.2

section

variable {q : String} {P : TypeRef → Prop} {inst : Instantiation}

theorem SourceType.holds_of_resolveIn (hP : TypeRef.HoldsIn q P) (hinst : ∀ e ∈ inst, P e.2)
    {t : SourceType} {r : TypeRef} (h : t.resolveIn q inst = .ok r) : P r := by
  obtain ⟨r₀, hr₀, rfl⟩ := resolveIn_eq_ok_iff.mp h
  exact hP.spelled hr₀ hinst

/-- It holds of a type parameter, with its bounds and without them. -/
theorem TypeParamDecl.holds_of_resolveIn (hP : TypeRef.HoldsIn q P) (hinst : ∀ e ∈ inst, P e.2)
    {d : TypeParamDecl} {p : TypeParam} (h : d.resolveIn q inst = .ok p) :
    P p.toRef ∧ P p.withoutBounds.toRef := by
  obtain ⟨p₀, hp₀, hname, rfl⟩ := resolveIn_eq_ok_iff.mp h
  obtain ⟨-, bounds, hbounds, rfl⟩ := resolve_eq_ok_iff.mp hp₀
  refine ⟨hP.param hname ?_, hP.param hname fun _ hb => absurd hb List.not_mem_nil⟩
  rw [List.forall_mem_map]
  intro u hu
  obtain ⟨us, hus, hu⟩ := List.mem_flatten.mp hu
  obtain ⟨b, -, hres⟩ := exists_rel_of_mem hbounds hus
  obtain ⟨c, -, hc⟩ := SourceType.exists_component_of_resolveUpper hres hu
  exact hP.spelled hc hinst

theorem MethodDecl.Resolves.holds (hP : TypeRef.HoldsIn q P) (hinst : ∀ e ∈ inst, P e.2)
    {d : MethodDecl} {m : TraitMethod} (h : d.Resolves q inst m) : m.Holds P where
  typeParams p hp := by
    obtain ⟨_, -, hres⟩ := exists_rel_of_mem h.typeParams hp
    exact (TypeParamDecl.holds_of_resolveIn hP hinst hres).1
  returns := SourceType.holds_of_resolveIn hP hinst h.returns
  params p hp := by
    obtain ⟨_, -, type, hres, htype⟩ := exists_rel_of_mem h.params hp
    exact ⟨type, SourceType.holds_of_resolveIn hP hinst hres, htype.imp_right And.right⟩
  throws r hr := by
    obtain ⟨_, -, hres⟩ := exists_rel_of_mem h.throws hr
    exact SourceType.holds_of_resolveIn hP hinst hres

section

variable {i : InterfaceDecl} {ti : TraitInterface} {ms : List TraitMethod}

theorem InterfaceDecl.Resolves.holds_args (hP : TypeRef.HoldsIn q P) (h : i.Resolves q ti ms) :
    ∀ r ∈ ti.type.args, P r := by
  intro r hr
  obtain ⟨_, -, hres⟩ := exists_rel_of_mem h.args hr
  exact SourceType.holds_of_resolveIn hP (fun _ he => absurd he List.not_mem_nil) hres

/-- So it holds of what is put for the interface's parameters. -/
theorem InterfaceDecl.Resolves.holds_instantiation (hP : TypeRef.HoldsIn q P)
    (h : i.Resolves q ti ms) : ∀ e ∈ ti.instantiation, P e.2 := by
  intro e he
  rcases h.eq_root_or_mem_args_of_mem he with hroot | harg
  · rw [hroot]
    exact hP.root
  · exact h.holds_args hP e.2 harg

theorem InterfaceDecl.Resolves.holds_methods (hP : TypeRef.HoldsIn q P) (h : i.Resolves q ti ms) :
    ∀ m ∈ ms, m.Holds P := by
  intro m hm
  obtain ⟨_, -, hres, -⟩ := exists_rel_of_mem h.methods hm
  exact hres.holds hP (h.holds_instantiation hP)

end

end

/-- **What holds of types in the terms of a trait holds of all types in it.** -/
theorem TraitDecl.Resolves.holds {d : TraitDecl} {t : Trait} {P : TypeRef → Prop}
    (hP : TypeRef.HoldsIn t.qualifier P) (h : d.Resolves t) : t.Holds P := by
  have hnil : ∀ e ∈ ([] : Instantiation), P e.2 := fun _ he => absurd he List.not_mem_nil
  have htypeParams : ∀ p ∈ t.typeParams, P p.toRef ∧ P p.withoutBounds.toRef := by
    intro p hp
    obtain ⟨_, -, hres⟩ := exists_rel_of_mem h.typeParams hp
    exact TypeParamDecl.holds_of_resolveIn hP hnil hres
  refine ⟨?_, fun p hp => (htypeParams p hp).1, fun m hm => ?_, fun i hi => ?_, fun i hi => ?_⟩
  · -- the arguments are the parameters again
    rw [h.args, List.forall_mem_map]
    exact fun p hp => (htypeParams p hp).2
  · rcases h.parts.methods m hm with ⟨decl, -, hres, -⟩ | ⟨i, -, ti, ms, hres, hms⟩
    · exact hres.holds hP hnil
    · exact (InterfaceDecl.resolves_of_resolveIn hres).holds_methods hP m hms
  · obtain ⟨_, -, _, hres⟩ := h.parts.interfaces i hi
    exact (InterfaceDecl.resolves_of_resolveIn hres).holds_args hP
  · obtain ⟨_, -, _, hres⟩ := h.parts.interfaces i hi
    exact (InterfaceDecl.resolves_of_resolveIn hres).holds_instantiation hP

end TraitWeaver
