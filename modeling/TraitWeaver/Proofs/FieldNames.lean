import TraitWeaver.Proofs.ParameterNames

/-!
# Whether the superclass declares a field twice

The fields of a generated superclass are the constants of all traits and one
delegate for each of them. The delegates have names of their own, and a constant
whose name several traits have is put under the qualifier of its trait. But the
names that are made up are not compared with those that are there: neither those
of constants with plain constants, nor any of them with delegates.

What is left to chance is said here exactly. Constants that keep their plain names
never clash with each other, since a clash is what would have put them under
their qualifiers (`HostConstant.nodup_name_ofTraits_iff`).
-/

namespace TraitWeaver

/-! ## The fields of a superclass -/

/-- The name of a field, if the member is one. -/
def Member.fieldName? : Member → Option String
  | .field f => some f.name
  | .abstract _ => none
  | .method _ _ => none
  | .nested _ _ => none

/-- The names of the fields in the type of a file, in their order. -/
def CompilationUnit.fieldNames (u : CompilationUnit) : List String :=
  u.body.members.filterMap Member.fieldName?

theorem Host.fieldName?_dispatchMember (c : Config) (fields : List String) (g : MethodGroup) :
    (dispatchMember c fields g).fieldName? = none := by
  unfold dispatchMember
  dsimp only
  split
  · rfl
  · rfl

/-- **The fields are the constants, then the delegates.** -/
theorem Host.fieldNames_superclassFile (h : Host) (c : Config) :
    (h.superclassFile c).fieldNames =
      (HostConstant.ofTraits h.traits).map (·.name) ++ Trait.delegateFields c h.traits := by
  show (h.constantMembers ++ h.delegateMembers c ++
    h.groups.map (dispatchMember c (Trait.delegateFields c h.traits))).filterMap
      Member.fieldName? = _
  have hdispatch : (h.groups.map (dispatchMember c (Trait.delegateFields c h.traits))).filterMap
      Member.fieldName? = [] := by
    refine List.filterMap_eq_nil_iff.mpr fun member hmember => ?_
    obtain ⟨g, -, rfl⟩ := List.mem_map.mp hmember
    exact fieldName?_dispatchMember c _ g
  have hconstants : h.constantMembers.filterMap Member.fieldName? =
      (HostConstant.ofTraits h.traits).map (·.name) := by
    unfold constantMembers
    rw [List.filterMap_map, ← List.filterMap_eq_map]
    rfl
  have hdelegates : (h.delegateMembers c).filterMap Member.fieldName? =
      Trait.delegateFields c h.traits := by
    unfold delegateMembers
    rw [List.filterMap_map]
    calc (h.traits.zip (Trait.delegateFields c h.traits)).filterMap _
        = (h.traits.zip (Trait.delegateFields c h.traits)).map Prod.snd := by
          rw [← List.filterMap_eq_map]
          rfl
      _ = Trait.delegateFields c h.traits :=
          List.map_snd_zip (Nat.le_of_eq (Trait.length_delegateFields c h.traits))
  rw [List.filterMap_append, List.filterMap_append, hdispatch, hconstants, hdelegates,
    List.append_nil]

/-! ## The constants of a host -/

/-- The constants of the trait have different names. -/
def Trait.DistinctConstants (t : Trait) : Prop := (t.constants.map (·.name)).Nodup

namespace HostConstant

/-- The trait that the constant is from, and the constant there. -/
def origin (k : HostConstant) : Trait × TraitConstant := (k.owner, k.constant)

/-- Every constant of every trait is listed once. -/
theorem map_origin_ofTraits (traits : List Trait) :
    (ofTraits traits).map origin = traits.flatMap fun t => t.constants.map (t, ·) := by
  unfold ofTraits
  dsimp only
  rw [List.map_flatMap]
  simp only [List.map_map]
  have hfst : traits.zipIdx.flatMap (fun p => p.1.constants.map (p.1, ·)) =
      (traits.zipIdx.map Prod.fst).flatMap fun t => t.constants.map (t, ·) := by
    rw [List.flatMap_map]
  rw [List.zipIdx_map_fst] at hfst
  exact hfst

variable {traits : List Trait}

theorem nodup_origin_ofTraits (hd : traits.Nodup) (hnames : ∀ t ∈ traits, t.DistinctConstants) :
    ((ofTraits traits).map origin).Nodup := by
  rw [map_origin_ofTraits]
  refine List.nodup_flatMap.mpr ⟨fun t ht => ?_, ?_⟩
  · exact (hnames t ht).of_map.map fun _ _ he => (Prod.mk.inj he).2
  · refine hd.pairwise_of_forall_ne fun t _ u _ hne p hp hp' => ?_
    obtain ⟨_, -, rfl⟩ := List.mem_map.mp hp
    obtain ⟨_, -, he⟩ := List.mem_map.mp hp'
    exact hne (Prod.mk.inj he).1.symm

theorem mem_of_mem_ofTraits {k : HostConstant} (hk : k ∈ ofTraits traits) :
    k.owner ∈ traits ∧ k.constant ∈ k.owner.constants := by
  have horigin : k.origin ∈ (ofTraits traits).map origin := List.mem_map_of_mem hk
  rw [map_origin_ofTraits] at horigin
  obtain ⟨t, ht, hmem⟩ := List.mem_flatMap.mp horigin
  obtain ⟨constant, hconstant, he⟩ := List.mem_map.mp hmem
  obtain ⟨rfl, rfl⟩ := Prod.mk.inj he
  exact ⟨ht, hconstant⟩

/-- **A constant is under a qualifier if another trait has one of its name.** -/
theorem isPrefixed_of_mem {k : HostConstant} (hk : k ∈ ofTraits traits) {u : Trait}
    (hu : u ∈ traits) (hne : u ≠ k.owner) {constant : TraitConstant}
    (hconstant : constant ∈ u.constants) (hname : constant.name = k.constant.name) :
    k.isPrefixed = true := by
  obtain ⟨⟨owner, position⟩, howner, hmem⟩ := List.mem_flatMap.mp hk
  obtain ⟨_, -, rfl⟩ := List.mem_map.mp hmem
  obtain ⟨position', hposition⟩ := List.mem_iff_getElem?.mp hu
  refine List.any_eq_true.mpr ⟨(u, position'), List.mem_zipIdx_iff_getElem?.mpr hposition, ?_⟩
  rw [Bool.and_eq_true, bne_iff_ne]
  refine ⟨fun he => hne ?_, List.any_eq_true.mpr ⟨constant, hconstant, decide_eq_true hname⟩⟩
  -- at one position there is one trait
  have howner := List.mem_zipIdx_iff_getElem?.mp howner
  dsimp only at he howner
  rw [he, howner] at hposition
  exact (Option.some.inj hposition).symm

theorem name_of_isPrefixed {k : HostConstant} (h : k.isPrefixed = true) :
    k.name = s!"{k.owner.qualifier}_{k.constant.name}" := if_pos h

theorem name_of_not_isPrefixed {k : HostConstant} (h : k.isPrefixed = false) :
    k.name = k.constant.name := by
  unfold name
  rw [h]
  rfl

/-- **Which constants of a host clash.** Two plain ones never do. -/
theorem nodup_name_ofTraits_iff (hd : (traits.map (·.qualifier)).Nodup)
    (hnames : ∀ t ∈ traits, t.DistinctConstants) :
    ((ofTraits traits).map (·.name)).Nodup ↔
      ∀ a ∈ ofTraits traits, ∀ b ∈ ofTraits traits, a.isPrefixed = true →
        (b.isPrefixed = false → b.constant.name ≠ s!"{a.owner.qualifier}_{a.constant.name}")
        ∧ (b.isPrefixed = true →
            ¬Text.Overlap a.owner.qualifier a.constant.name b.owner.qualifier b.constant.name) := by
  have horigin := nodup_origin_ofTraits hd.of_map hnames
  rw [List.nodup_map_iff_inj_on horigin.of_map]
  -- a constant is known by its trait and its name there
  have heq : ∀ a ∈ ofTraits traits, ∀ b ∈ ofTraits traits, a.owner = b.owner →
      a.constant.name = b.constant.name → a = b := by
    intro a ha b hb howner hname
    refine List.inj_on_of_nodup_map horigin ha hb (Prod.ext howner ?_)
    obtain ⟨hmem, hconstant⟩ := mem_of_mem_ofTraits ha
    obtain ⟨-, hconstant'⟩ := mem_of_mem_ofTraits hb
    rw [← howner] at hconstant'
    exact List.inj_on_of_nodup_map (hnames _ hmem) hconstant hconstant' hname
  refine ⟨fun hinj a ha b hb hpre => ⟨fun hplain he => ?_, fun hpre' hoverlap => ?_⟩,
    fun hall a ha b hb he => ?_⟩
  · have hsame := hinj a ha b hb
      ((name_of_isPrefixed hpre).trans (he.symm.trans (name_of_not_isPrefixed hplain).symm))
    rw [hsame, hplain] at hpre
    cases hpre
  · have hwritten := Text.qualified_eq_iff.mpr (Or.inr hoverlap)
    have hsame := hinj a ha b hb
      ((name_of_isPrefixed hpre).trans (hwritten.trans (name_of_isPrefixed hpre').symm))
    rw [hsame] at hoverlap
    exact Text.not_overlap_self _ _ _ hoverlap
  · cases hpre : a.isPrefixed with
    | true =>
        cases hpre' : b.isPrefixed with
        | true =>
            rw [name_of_isPrefixed hpre, name_of_isPrefixed hpre', Text.qualified_eq_iff] at he
            obtain ⟨hq, hname⟩ := he.resolve_right ((hall a ha b hb hpre).2 hpre')
            exact heq a ha b hb (List.inj_on_of_nodup_map hd (mem_of_mem_ofTraits ha).1
              (mem_of_mem_ofTraits hb).1 hq) hname
        | false =>
            rw [name_of_isPrefixed hpre, name_of_not_isPrefixed hpre'] at he
            exact absurd he.symm ((hall a ha b hb hpre).1 hpre')
    | false =>
        cases hpre' : b.isPrefixed with
        | true =>
            rw [name_of_not_isPrefixed hpre, name_of_isPrefixed hpre'] at he
            exact absurd he ((hall b hb a ha hpre').1 hpre)
        | false =>
            rw [name_of_not_isPrefixed hpre, name_of_not_isPrefixed hpre'] at he
            refine heq a ha b hb (by_contra fun hne => ?_) he
            -- two plain constants of one name would both be under their qualifiers
            obtain ⟨hu, hconstant⟩ := mem_of_mem_ofTraits hb
            rw [isPrefixed_of_mem ha hu (Ne.symm hne) hconstant he.symm] at hpre
            cases hpre

end HostConstant

/--
**When a superclass declares a field twice.** Either a constant under a qualifier is called like a
plain one, or two under qualifiers overlap, or a constant is called like a delegate.
-/
theorem HostDecl.nodup_fieldNames_iff {index : TraitIndex} {d : HostDecl} {h : Host}
    (hr : (d.resolve index).1 = .ok h) (hnames : ∀ t ∈ h.traits, t.DistinctConstants)
    (c : Config) :
    (h.superclassFile c).fieldNames.Nodup ↔
      (∀ a ∈ HostConstant.ofTraits h.traits, ∀ b ∈ HostConstant.ofTraits h.traits,
        a.isPrefixed = true →
          (b.isPrefixed = false → b.constant.name ≠ s!"{a.owner.qualifier}_{a.constant.name}")
          ∧ (b.isPrefixed = true →
              ¬Text.Overlap a.owner.qualifier a.constant.name b.owner.qualifier b.constant.name))
      ∧ ∀ a ∈ HostConstant.ofTraits h.traits, a.name ∉ Trait.delegateFields c h.traits := by
  rw [h.fieldNames_superclassFile,
    ← HostConstant.nodup_name_ofTraits_iff (nodup_qualifier_of_resolve hr) hnames, List.nodup_append]
  refine and_congr_right fun _ => ⟨fun hall a ha hmem => ?_, fun hall => ?_⟩
  · exact hall.2 a.name (List.mem_map_of_mem ha) a.name hmem rfl
  · refine ⟨Trait.nodup_delegateFields c h.traits, fun name hname field hfield he => ?_⟩
    obtain ⟨a, ha, rfl⟩ := List.mem_map.mp hname
    exact hall a ha (he ▸ hfield)

/-! ## Constants in a crate -/

instance (t : Trait) : Decidable t.DistinctConstants := inferInstanceAs (Decidable (List.Nodup _))

/-- A trait with texts for constants and nothing else. -/
def TraitDecl.labelled (name : String) (constants : List String) : TraitDecl :=
  { name
    typeParams := []
    superclass := none
    interfaces := []
    members := constants.map fun constant =>
      .field ⟨constant, .declared "java.lang.String" [], [.public, .static, .final]⟩ }

namespace HostDecl

/-- One name that both traits have and one that only one of them has. -/
theorem nodup_fieldNames_iff_composing :
    ∃ h : Host, ((composing ["lib.Box", "lib.Bag"] none).resolve
        (.ofDecls [.labelled "lib.Box" ["MAX", "MIN"], .labelled "lib.Bag" ["MAX"]])).1 = .ok h
      ∧ (∀ t ∈ h.traits, t.DistinctConstants)
      ∧ (h.superclassFile .bare).fieldNames =
          ["Box_MAX", "MIN", "Bag_MAX", "boxDelegate", "bagDelegate"]
      ∧ ∀ a ∈ HostConstant.ofTraits h.traits, ∀ b ∈ HostConstant.ofTraits h.traits,
          a.isPrefixed = true → b.isPrefixed = true →
          ¬Text.Overlap a.owner.qualifier a.constant.name b.owner.qualifier b.constant.name := by
  have hresolve : ((composing ["lib.Box", "lib.Bag"] none).resolve
      (.ofDecls [.labelled "lib.Box" ["MAX", "MIN"],
        .labelled "lib.Bag" ["MAX"]])).1.toOption.map (fun h =>
      (decide (∀ t ∈ h.traits, t.DistinctConstants), (h.superclassFile .bare).fieldNames)) =
      some (true, ["Box_MAX", "MIN", "Bag_MAX", "boxDelegate", "bagDelegate"]) := by
    decide +kernel
  obtain ⟨h, hr, he⟩ := Option.map_eq_some_iff.mp hresolve
  obtain ⟨hnames, hfields⟩ := Prod.mk.inj he
  have hr := toOption_eq_some_iff.mp hr
  have hnames := of_decide_eq_true hnames
  have hnodup : (h.superclassFile .bare).fieldNames.Nodup := by
    rw [hfields]
    decide
  obtain ⟨hclash, -⟩ := (nodup_fieldNames_iff hr hnames .bare).mp hnodup
  exact ⟨h, hr, hnames, hfields, fun a ha b hb hpre => (hclash a ha b hb hpre).2⟩

/-- A plain constant is in the way of one that is put under a qualifier, and another one is in the
way of a delegate. -/
theorem not_forall_nodup_fieldNames :
    (¬∀ (index : TraitIndex) (d : HostDecl) (h : Host) (c : Config), (d.resolve index).1 = .ok h →
        (∀ t ∈ h.traits, t.DistinctConstants) → (h.superclassFile c).fieldNames.Nodup)
      ∧ (composing ["lib.Box", "lib.Bag"] none).superclassText?
          (.ofDecls [.labelled "lib.Box" ["MAX"], .labelled "lib.Bag" ["MAX", "Box_MAX"]]) =
        some (String.join
          ["package app;\n\n",
            "import lib.Bag;\n",
            "import lib.BagDelegate;\n",
            "import lib.BagTrait;\n",
            "import lib.Box;\n",
            "import lib.BoxDelegate;\n",
            "import lib.BoxTrait;\n\n",
            "public abstract class AbstractCrate implements BoxTrait, BagTrait \x7b\n",
            "    public static final String Box_MAX = Box.MAX;\n",
            "    public static final String Bag_MAX = Bag.MAX;\n",
            "    public static final String Box_MAX = Bag.Box_MAX;\n",
            "    private final BoxDelegate boxDelegate = new BoxDelegate(this);\n",
            "    private final BagDelegate bagDelegate = new BagDelegate(this);\n",
            "\x7d\n"])
      ∧ (composing ["lib.Box"] none).superclassText?
          (.ofDecls [.labelled "lib.Box" ["boxDelegate"]]) =
        some (String.join
          ["package app;\n\n",
            "import lib.Box;\n",
            "import lib.BoxDelegate;\n",
            "import lib.BoxTrait;\n\n",
            "public abstract class AbstractCrate implements BoxTrait \x7b\n",
            "    public static final String boxDelegate = Box.boxDelegate;\n",
            "    private final BoxDelegate boxDelegate = new BoxDelegate(this);\n",
            "\x7d\n"]) := by
  refine ⟨fun hall => ?_, by decide +kernel, by decide +kernel⟩
  have hresolve : ((composing ["lib.Box", "lib.Bag"] none).resolve
      (.ofDecls [.labelled "lib.Box" ["MAX"],
        .labelled "lib.Bag" ["MAX", "Box_MAX"]])).1.toOption.map (fun h =>
      (decide (∀ t ∈ h.traits, t.DistinctConstants), (h.superclassFile .bare).fieldNames)) =
      some (true, ["Box_MAX", "Bag_MAX", "Box_MAX", "boxDelegate", "bagDelegate"]) := by
    decide +kernel
  obtain ⟨h, hr, he⟩ := Option.map_eq_some_iff.mp hresolve
  obtain ⟨hnames, hfields⟩ := Prod.mk.inj he
  have hnodup := hall _ _ h .bare (toOption_eq_some_iff.mp hr) (of_decide_eq_true hnames)
  rw [hfields] at hnodup
  exact absurd hnodup (by decide)

end HostDecl

end TraitWeaver
