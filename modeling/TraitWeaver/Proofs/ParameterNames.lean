import TraitWeaver.Artifact.Superclass
import TraitWeaver.Proofs.Merging
import TraitWeaver.Proofs.QualifiedName

/-!
# Whether the traits of a host share a type parameter

The generated class of a host lists the parameters of its superclass and those of
all traits, merged by name. That the superclass may stand in for a parameter of a
trait is on purpose; that two traits should be one in a parameter is not, since
the arguments of one of them would then decide what the other one holds.

Two traits share a parameter exactly if the two names overlap, and the class has
all parameters exactly if none of those that the superclass leaves do.
-/

namespace TraitWeaver

/-- The parameters that the superclass makes up, which come first. -/
def Host.superclassParams (h : Host) (c : Config) : List TypeParam :=
  (h.superclass.map (·.typeParams c)).getD []

/-- The parameters of the traits that have no name of those. -/
def Host.keptParams (h : Host) (c : Config) : List TypeParam :=
  (h.traits.flatMap (·.typeParams)).filter
    (·.sourceName ∉ (h.superclassParams c).map (·.sourceName))

/-- **The parameters of a class are those that the superclass makes up, then those of the traits
that have a new name.** -/
theorem Host.typeParams_eq_append_newcomers (h : Host) (c : Config) :
    h.typeParams c = h.superclassParams c ++
      newcomers ((h.superclassParams c).map (·.sourceName)) (h.traits.flatMap (·.typeParams)) :=
  foldl_addParam_eq_append_newcomers _ _

theorem Host.mem_typeParams_of_superclass {h : Host} {s : Superclass} (hs : h.superclass = some s)
    {c : Config} {p : TypeParam} (hp : p ∈ s.typeParams c) : p ∈ h.typeParams c := by
  rw [typeParams_eq_append_newcomers]
  refine List.mem_append_left _ ?_
  unfold superclassParams
  rw [hs]
  exact hp

/-- The parameters of the trait have different names. -/
def Trait.DistinctParams (t : Trait) : Prop := (t.typeParams.map (·.var.name)).Nodup

theorem Trait.Qualified.sourceName_eq {t : Trait} (h : t.Qualified) {p : TypeParam}
    (hp : p ∈ t.typeParams) : p.sourceName = s!"{t.qualifier}_{p.var.name}" := by
  unfold TypeParam.sourceName TypeVar.sourceName
  rw [h p hp]

namespace HostDecl

variable {index : TraitIndex} {d : HostDecl} {h : Host}

/-- **Parameters of two traits are written alike exactly if their names overlap.** -/
theorem sourceName_eq_iff_overlap (hindex : ∀ t ∈ index.traits, t.IsResolved)
    (hr : (d.resolve index).1 = .ok h) {t u : Trait} (ht : t ∈ h.traits) (hu : u ∈ h.traits)
    (hne : t ≠ u) {p r : TypeParam} (hp : p ∈ t.typeParams) (hpu : r ∈ u.typeParams) :
    p.sourceName = r.sourceName ↔
      Text.Overlap t.qualifier p.var.name u.qualifier r.var.name := by
  rw [(qualifier_of_mem_typeParams hindex hr ht).sourceName_eq hp,
    (qualifier_of_mem_typeParams hindex hr hu).sourceName_eq hpu, Text.qualified_eq_iff]
  exact or_iff_right fun he => qualifier_ne_of_resolve hr ht hu hne he.1

/-- All parameters of the traits are different, as what they are. -/
theorem nodup_typeParams (hindex : ∀ t ∈ index.traits, t.IsResolved)
    (hr : (d.resolve index).1 = .ok h) (hnames : ∀ t ∈ h.traits, t.DistinctParams) :
    (h.traits.flatMap (·.typeParams)).Nodup := by
  refine List.nodup_flatMap.mpr ⟨fun t ht => (hnames t ht).of_map, ?_⟩
  refine (distinct_of_resolve hr).nodup.pairwise_of_forall_ne fun t ht u hu hne p hp hp' => ?_
  -- a parameter says by its qualifier which trait it belongs to
  have he := (qualifier_of_mem_typeParams hindex hr ht p hp).symm.trans
    (qualifier_of_mem_typeParams hindex hr hu p hp')
  exact qualifier_ne_of_resolve hr ht hu hne (Option.some.inj he)

/-- **The parameters that are kept have different names exactly if no two of them overlap.** -/
theorem nodup_sourceName_keptParams_iff (hindex : ∀ t ∈ index.traits, t.IsResolved)
    (hr : (d.resolve index).1 = .ok h) (hnames : ∀ t ∈ h.traits, t.DistinctParams) (c : Config) :
    ((h.keptParams c).map (·.sourceName)).Nodup ↔
      ∀ t ∈ h.traits, ∀ u ∈ h.traits, t ≠ u → ∀ p ∈ t.typeParams, ∀ r ∈ u.typeParams,
        p.sourceName ∉ (h.superclassParams c).map (·.sourceName) →
        ¬Text.Overlap t.qualifier p.var.name u.qualifier r.var.name := by
  have hnodup : (h.keptParams c).Nodup := (nodup_typeParams hindex hr hnames).filter _
  rw [List.nodup_map_iff_inj_on hnodup]
  have hmem : ∀ p, p ∈ h.keptParams c ↔ (∃ t ∈ h.traits, p ∈ t.typeParams)
      ∧ p.sourceName ∉ (h.superclassParams c).map (·.sourceName) := by
    intro p
    unfold Host.keptParams
    rw [List.mem_filter, List.mem_flatMap, decide_eq_true_eq]
  refine ⟨fun hinj t ht u hu hne p hp r hpu hkept hoverlap => ?_, fun hall p hp r hpu he => ?_⟩
  · have he := (sourceName_eq_iff_overlap hindex hr ht hu hne hp hpu).mpr hoverlap
    have hsame := hinj p ((hmem p).mpr ⟨⟨t, ht, hp⟩, hkept⟩) r
      ((hmem r).mpr ⟨⟨u, hu, hpu⟩, he ▸ hkept⟩) he
    refine qualifier_ne_of_resolve hr ht hu hne (Option.some.inj ?_)
    rw [← qualifier_of_mem_typeParams hindex hr ht p hp, hsame,
      qualifier_of_mem_typeParams hindex hr hu r hpu]
  · obtain ⟨⟨t, ht, hp⟩, hkept⟩ := (hmem p).mp hp
    obtain ⟨⟨u, hu, hpu⟩, -⟩ := (hmem r).mp hpu
    by_cases hne : t = u
    · -- within a trait it is the names that are different
      subst hne
      have hq := qualifier_of_mem_typeParams hindex hr ht
      rw [hq.sourceName_eq hp, hq.sourceName_eq hpu, Text.qualified_right_inj] at he
      exact List.inj_on_of_nodup_map (hnames t ht) hp hpu he
    · refine absurd ?_ (hall t ht u hu hne p hp r hpu hkept)
      exact (sourceName_eq_iff_overlap hindex hr ht hu hne hp hpu).mp he

/--
**When traits share a type parameter.** Parameters of different traits are written alike exactly if
their names overlap, and the class has every parameter that the superclass leaves exactly if no two
of these overlap.
-/
theorem typeParams_eq_append_keptParams_iff (hindex : ∀ t ∈ index.traits, t.IsResolved)
    (hr : (d.resolve index).1 = .ok h) (hnames : ∀ t ∈ h.traits, t.DistinctParams) (c : Config) :
    (∀ t ∈ h.traits, ∀ u ∈ h.traits, t ≠ u → ∀ p ∈ t.typeParams, ∀ r ∈ u.typeParams,
        (p.sourceName = r.sourceName ↔
          Text.Overlap t.qualifier p.var.name u.qualifier r.var.name))
      ∧ (h.typeParams c = h.superclassParams c ++ h.keptParams c ↔
          ∀ t ∈ h.traits, ∀ u ∈ h.traits, t ≠ u → ∀ p ∈ t.typeParams, ∀ r ∈ u.typeParams,
            p.sourceName ∉ (h.superclassParams c).map (·.sourceName) →
            ¬Text.Overlap t.qualifier p.var.name u.qualifier r.var.name) := by
  refine ⟨fun t ht u hu hne p hp r hpu =>
    sourceName_eq_iff_overlap hindex hr ht hu hne hp hpu, ?_⟩
  rw [← nodup_sourceName_keptParams_iff hindex hr hnames c]
  exact Host.foldl_addParam_eq_iff _ _

end HostDecl

/-! ## A crate -/

instance (t : Trait) : Decidable t.DistinctParams := inferInstanceAs (Decidable (List.Nodup _))

/-- A trait with one type parameter and nothing else. -/
def TraitDecl.generic (name param : String) : TraitDecl :=
  { name, typeParams := [⟨param, []⟩], superclass := none, interfaces := [], members := [] }

/-- A class that composes two traits, and may extend a class with one argument. -/
def HostDecl.composing (traits : List String) (superclass : Option SuperclassDecl) : HostDecl :=
  { name := "app.Crate", traits, superclass, preferences := [] }

/-- The superclass of a host as it is written. -/
def HostDecl.superclassText? (d : HostDecl) (index : TraitIndex) : Option String :=
  (d.resolve index).1.toOption.bind fun h => (h.superclassFile .bare).render.toOption

namespace HostDecl

/-- The superclass stands in for the parameter of one trait, and the other one is kept. -/
theorem typeParams_eq_append_keptParams_iff_composing :
    ∃ h : Host, ((composing ["lib.Box", "lib.Bag"] (some ⟨"app.Base", [], [.named "Bag_T"]⟩)).resolve
        (.ofDecls [.generic "lib.Box" "T", .generic "lib.Bag" "T"])).1 = .ok h
      ∧ (∀ t ∈ h.traits, t.DistinctParams)
      ∧ (h.superclassParams .bare).map (·.sourceName) = ["Bag_T"]
      ∧ (h.keptParams .bare).map (·.sourceName) = ["Box_T"]
      ∧ ∀ t ∈ h.traits, ∀ u ∈ h.traits, t ≠ u → ∀ p ∈ t.typeParams, ∀ r ∈ u.typeParams,
          p.sourceName ∉ (h.superclassParams .bare).map (·.sourceName) →
          ¬Text.Overlap t.qualifier p.var.name u.qualifier r.var.name := by
  have hresolve : ((composing ["lib.Box", "lib.Bag"]
      (some ⟨"app.Base", [], [.named "Bag_T"]⟩)).resolve
        (.ofDecls [.generic "lib.Box" "T", .generic "lib.Bag" "T"])).1.toOption.map (fun h =>
      (decide (∀ t ∈ h.traits, t.DistinctParams),
        (h.superclassParams .bare).map (·.sourceName), (h.keptParams .bare).map (·.sourceName),
        decide (h.typeParams .bare = h.superclassParams .bare ++ h.keptParams .bare))) =
      some (true, ["Bag_T"], ["Box_T"], true) := by
    decide +kernel
  obtain ⟨h, hr, he⟩ := Option.map_eq_some_iff.mp hresolve
  obtain ⟨hnames, he⟩ := Prod.mk.inj he
  obtain ⟨hsuper, he⟩ := Prod.mk.inj he
  obtain ⟨hkept, hparams⟩ := Prod.mk.inj he
  have hr := toOption_eq_some_iff.mp hr
  have hnames := of_decide_eq_true hnames
  refine ⟨h, hr, hnames, hsuper, hkept, ?_⟩
  exact (typeParams_eq_append_keptParams_iff TraitIndex.isResolved_ofDecls hr hnames .bare).2.mp
    (of_decide_eq_true hparams)

/-- Two traits of different names become one in their parameter, and a subclass cannot give them
different arguments. -/
theorem not_forall_sourceName_ne :
    (¬∀ (index : TraitIndex) (d : HostDecl) (h : Host), (∀ t ∈ index.traits, t.IsResolved) →
        (d.resolve index).1 = .ok h → (∀ t ∈ h.traits, t.DistinctParams) →
        ∀ t ∈ h.traits, ∀ u ∈ h.traits, t ≠ u → ∀ p ∈ t.typeParams, ∀ r ∈ u.typeParams,
          p.sourceName ≠ r.sourceName)
      ∧ (composing ["lib.Box", "lib.Box_Item"] none).superclassText?
          (.ofDecls [.generic "lib.Box" "Item_T", .generic "lib.Box_Item" "T"]) =
        some (String.join
          ["package app;\n\n",
            "import lib.BoxDelegate;\n",
            "import lib.BoxTrait;\n",
            "import lib.Box_ItemDelegate;\n",
            "import lib.Box_ItemTrait;\n\n",
            "public abstract class AbstractCrate<Box_Item_T> implements BoxTrait<Box_Item_T>, ",
            "Box_ItemTrait<Box_Item_T> \x7b\n",
            "    private final BoxDelegate<Box_Item_T> boxDelegate = new BoxDelegate<>(this);\n",
            "    private final Box_ItemDelegate<Box_Item_T> box_ItemDelegate = ",
            "new Box_ItemDelegate<>(this);\n",
            "\x7d\n"]) := by
  refine ⟨fun hall => ?_, by decide +kernel⟩
  have hresolve : ((composing ["lib.Box", "lib.Box_Item"] none).resolve
      (.ofDecls [.generic "lib.Box" "Item_T", .generic "lib.Box_Item" "T"])).1.toOption.map
      (fun h => (decide (∀ t ∈ h.traits, t.DistinctParams), decide (∃ t ∈ h.traits,
        ∃ u ∈ h.traits, t ≠ u ∧ ∃ p ∈ t.typeParams, ∃ r ∈ u.typeParams,
          p.sourceName = r.sourceName))) = some (true, true) := by
    decide +kernel
  obtain ⟨h, hr, he⟩ := Option.map_eq_some_iff.mp hresolve
  obtain ⟨hnames, hshared⟩ := Prod.mk.inj he
  obtain ⟨t, ht, u, hu, hne, p, hp, r, hpu, he⟩ := of_decide_eq_true hshared
  exact hall _ _ h TraitIndex.isResolved_ofDecls (toOption_eq_some_iff.mp hr)
    (of_decide_eq_true hnames) t ht u hu hne p hp r hpu he

end HostDecl

end TraitWeaver
