import TraitWeaver.Proofs.FileScope
import TraitWeaver.Proofs.SuperclassBounds

/-!
# What the merged type parameters are

The type parameters of a generated class are merged twice by their names: those made up
for the arguments of the superclass among each other, and then with those of all traits.
Whatever is dropped, something of its name is in the list already, so both clauses of the
heading can use a parameter that they have lost: the class that is extended, whose
arguments were given by name, and the interfaces, whose arguments are the parameters of the
traits. What they write is declared in any case.
-/

namespace TraitWeaver

/-- The reference is a use of the parameter, by the name that it is written with. -/
def TypeParam.UsedAs (p : TypeParam) (r : TypeRef) : Prop :=
  ∃ v, r = .param v [] none .scalar ∧ v.sourceName = p.sourceName

/-! ## The interfaces of traits -/

namespace Trait

/-- The arguments of the trait's type are its own parameters. -/
def OwnArgs (t : Trait) : Prop := t.type.args = t.typeParams.map (·.withoutBounds.toRef)

theorem IsResolved.ownArgs {t : Trait} (h : t.IsResolved) : t.OwnArgs := by
  obtain ⟨d, c, ds, hr⟩ := h
  exact (TraitDecl.resolves_of_resolve hr).args

/-- **Arguments and parameters are moved to another qualifier together.** -/
theorem Requalified.ownArgs {t u : Trait} (hreq : Requalified t u) (h : t.OwnArgs) :
    u.OwnArgs := by
  rcases hreq with rfl | ⟨q, rfl⟩
  · exact h
  · show t.type.args.map (·.requalify t.qualifier q) =
      (t.typeParams.map (·.requalify t.qualifier q)).map (·.withoutBounds.toRef)
    rw [show t.type.args = _ from h, List.map_map, List.map_map]
    refine List.map_congr_left fun p _ => ?_
    show p.withoutBounds.toRef.requalify t.qualifier q = _
    rw [TypeRef.requalify_eq_mapVars]
    exact TypeRef.mapVars_param _ _ _ _ _

end Trait

/-! ## The merged list -/

namespace Superclass

/-- The names of the parameters that give arguments, in the order of the arguments. -/
def argNames (s : Superclass) (c : Config) : List String :=
  s.args.zipIdx.filterMap fun e => e.1.paramName? c e.2

/-- **The made-up parameters have these names without repeats.** -/
theorem map_sourceName_typeParams (s : Superclass) (c : Config) :
    (s.typeParams c).map (·.sourceName) = (s.argNames c).eraseDups := by
  have hnames : (s.argParams c).map (·.sourceName) = s.argNames c := by
    unfold argParams argNames
    rw [List.map_filterMap]
    refine List.filterMap_congr fun e _ => ?_
    dsimp only
    cases e.1.paramName? c e.2 <;> rfl
  rw [← hnames]
  exact Host.map_sourceName_foldl_addParam_nil _

end Superclass

namespace Host

/-- The type parameters of the generated class are merged from those of its superclass and of its
traits, and declare what both clauses of the heading use. -/
structure Merged (h : Host) (c : Config) : Prop where
  nodup : ((h.typeParams c).map (·.sourceName)).Nodup
  /-- First come the names given for arguments of the superclass, without repeats. -/
  superclass : (h.superclassParams c).map (·.sourceName) =
    ((h.superclass.map (·.argNames c)).getD []).eraseDups
  /-- Then come the parameters of the traits with a new name, as they are. -/
  traits : h.typeParams c = h.superclassParams c ++
    newcomers ((h.superclassParams c).map (·.sourceName)) (h.traits.flatMap (·.typeParams))
  listed : (h.superclassFile c).body.heading.typeParams = h.typeParams c
  /-- An argument of the superclass that is given by a name is a use of a parameter. -/
  extended : ∀ s, h.superclass = some s →
    (h.superclassFile c).body.heading.superclass = some (.declared s.name (s.argRefs c) .scalar)
      ∧ ∀ position name, s.argName? c position = some name →
          ∃ r, (s.argRefs c)[position]? = some r ∧ ∃ p ∈ h.typeParams c, p.UsedAs r
  /-- So is every argument of an interface. -/
  implemented : ∀ r ∈ (h.superclassFile c).body.heading.interfaces,
    ∃ name args, r = .declared name args .scalar ∧ ∀ a ∈ args, ∃ p ∈ h.typeParams c, p.UsedAs a

end Host

namespace HostDecl

/--
**The type parameters of a generated class.** Their names are different; they begin with those given
for the arguments of the superclass and go on with those of the traits that have a new name, and
every argument that is one of them is declared.
-/
theorem merged_of_resolve {index : TraitIndex} {d : HostDecl} {h : Host}
    (hindex : ∀ t ∈ index.traits, t.IsResolved) (hr : (d.resolve index).1 = .ok h) (c : Config) :
    h.Merged c := by
  have hsuper : (h.superclassParams c).map (·.sourceName) =
      ((h.superclass.map (·.argNames c)).getD []).eraseDups := by
    unfold Host.superclassParams
    cases h.superclass with
    | none => rfl
    | some s => exact s.map_sourceName_typeParams c
  have hsuperNodup : ((h.superclassParams c).map (·.sourceName)).Nodup := by
    unfold Host.superclassParams
    cases h.superclass with
    | none => exact List.nodup_nil
    | some s => exact Host.nodup_sourceName_foldl_addParam _ List.nodup_nil
  have huse : ∀ v : TypeVar, v.sourceName ∈ (h.typeParams c).map (·.sourceName) →
      ∃ p ∈ h.typeParams c, p.UsedAs (.param v [] none .scalar) := by
    intro v hv
    obtain ⟨p, hp, he⟩ := List.mem_map.mp hv
    exact ⟨p, hp, v, rfl, he.symm⟩
  refine ⟨Host.nodup_sourceName_foldl_addParam _ hsuperNodup, hsuper,
    h.typeParams_eq_append_newcomers c, rfl, fun s hs => ⟨?_, ?_⟩, fun r hmem => ?_⟩
  · show h.superclass.map (·.toRef c) = _
    rw [hs]
    rfl
  · intro position name hname
    refine ⟨_, Superclass.getElem?_argRefs_of_argName? hname, huse (.plain name) ?_⟩
    obtain ⟨arg, harg, hname⟩ := Option.bind_eq_some_iff.mp hname
    exact Host.sourceName_mem_typeParams_of_superclass hs
      (Superclass.sourceName_mem_typeParams (List.mk_mem_zipIdx_iff_getElem?.mpr harg) hname)
  · obtain ⟨u, hu, rfl⟩ := List.mem_map.mp hmem
    obtain ⟨t, ht, hreq⟩ := exists_requalified_of_resolve hr hu
    refine ⟨_, u.type.args, rfl, fun a ha => ?_⟩
    rw [show u.type.args = _ from hreq.ownArgs (hindex t ht).ownArgs] at ha
    obtain ⟨p, hp, rfl⟩ := List.mem_map.mp ha
    exact huse p.var (Host.sourceName_mem_typeParams hu p hp)

/-- A name that is given twice stands in for the parameter of a trait. -/
theorem merged_of_resolve_repeated :
    ∃ h : Host, ((composing ["lib.Box", "lib.Bag"]
        (some ⟨"app.Base", [], [.named "Bag_T", .auto, .named "Bag_T"]⟩)).resolve
          (.ofDecls [.generic "lib.Box" "T", .generic "lib.Bag" "T"])).1 = .ok h
      ∧ (h.typeParams .bare).map (·.sourceName) = ["Bag_T", "S1", "Box_T"]
      ∧ h.Merged .bare := by
  have hresolve : ((composing ["lib.Box", "lib.Bag"]
      (some ⟨"app.Base", [], [.named "Bag_T", .auto, .named "Bag_T"]⟩)).resolve
        (.ofDecls [.generic "lib.Box" "T", .generic "lib.Bag" "T"])).1.toOption.map
      (fun h => (h.typeParams .bare).map (·.sourceName)) = some ["Bag_T", "S1", "Box_T"] := by
    decide +kernel
  obtain ⟨h, hr, hnames⟩ := Option.map_eq_some_iff.mp hresolve
  have hr := toOption_eq_some_iff.mp hr
  exact ⟨h, hr, hnames, merged_of_resolve TraitIndex.isResolved_ofDecls hr .bare⟩

end HostDecl

end TraitWeaver
