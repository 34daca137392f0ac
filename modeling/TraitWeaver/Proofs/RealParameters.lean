import TraitWeaver.Proofs.ArtifactNames
import TraitWeaver.Proofs.FileScope
import TraitWeaver.Proofs.ParameterNames

/-!
# Whether type parameters are real ones

A type parameter that a class declares needs a name, and `?` is not one. The parameters of
a generated class come from several places, and each place has its own check:

* a trait's parameter must have a name to be a parameter at all, and cannot be a wildcard
  when it takes its qualifier;
* a made-up name is an identifier, because the options are valid;
* a name that is given for an argument of the superclass is taken as it is.

So the names that are given decide.
-/

namespace TraitWeaver

/-- The parameter has a name and is not a wildcard. -/
def TypeParam.IsReal (p : TypeParam) : Prop :=
  p.var.name ≠ "" ∧ p.var.name ≠ TypeVar.wildcardName

/-! ## Made-up names -/

/-- **A made-up name is real**, because it is an identifier. -/
theorem TypeParam.isReal_of_auto {c : Config} (hc : c.validate = .ok ()) (position : Nat)
    (upper : List TypeRef) :
    TypeParam.IsReal ⟨.plain (c.autoParameterName position), upper, none⟩ := by
  have hname : Text.IsIdentifier (c.autoParameterName position) :=
    (Config.validate_eq_ok_iff.mp hc).makesIdentifiers.autoParameter position
  refine ⟨hname.ne_empty, fun he => ?_⟩
  have he : c.autoParameterName position = TypeVar.wildcardName := he
  rw [he, ← Text.isIdentifier_iff] at hname
  revert hname
  decide +kernel

/-! ## The parameters of a trait -/

namespace Trait

/-- A trait is refused if one of its parameters is not real. -/
theorem IsResolved.isReal {t : Trait} (h : t.IsResolved) : ∀ p ∈ t.typeParams, p.IsReal := by
  obtain ⟨d, c, ds, hr⟩ := h
  intro p hp
  obtain ⟨_, -, hres⟩ := exists_rel_of_mem (TraitDecl.resolves_of_resolve hr).typeParams hp
  obtain ⟨p₀, hp₀, hwildcard, rfl⟩ := TypeParamDecl.resolveIn_eq_ok_iff.mp hres
  exact ⟨(TypeParamDecl.resolve_eq_ok_iff.mp hp₀).1, hwildcard⟩

/-- Another qualifier changes no name. -/
theorem Requalified.isReal {t u : Trait} (hreq : Requalified t u)
    (h : ∀ p ∈ t.typeParams, p.IsReal) : ∀ p ∈ u.typeParams, p.IsReal := by
  rcases hreq with rfl | ⟨q, rfl⟩
  · exact h
  · intro p' hp'
    obtain ⟨p, hp, rfl⟩ := List.mem_map.mp hp'
    have hname : (p.requalify t.qualifier q).var.name = p.var.name := by
      unfold TypeParam.requalify
      split <;> rfl
    unfold TypeParam.IsReal
    rw [hname]
    exact h p hp

end Trait

/-! ## The parameters of the superclass -/

/-- Resolving keeps the names that are given, and gives none. -/
theorem SuperclassDecl.Resolves.named_mem_iff {d : SuperclassDecl} {s : Superclass}
    (h : d.Resolves s) {name : String} : .named name ∈ s.args ↔ .named name ∈ d.args := by
  rcases h.args with ⟨hnone, hauto⟩ | hargs
  · rw [hnone, hauto]
    refine ⟨fun hmem => ?_, fun hmem => absurd hmem List.not_mem_nil⟩
    obtain ⟨_, -, he⟩ := List.mem_map.mp hmem
    cases he
  · refine ⟨fun hmem => ?_, fun hmem => ?_⟩
    · obtain ⟨a, ha, hres⟩ := exists_rel_of_mem hargs hmem
      cases a with
      | explicit t =>
          obtain ⟨_, -, he⟩ := bind_eq_ok.mp hres
          cases he
      | named n =>
          cases hres
          exact ha
      | auto => cases hres
    · obtain ⟨a, ha, hres⟩ := exists_rel_of_mem hargs.flip hmem
      cases hres
      exact ha

/-- **A parameter that is not real is a name that is given.** -/
theorem Superclass.isReal_or_named_mem {s : Superclass} {c : Config} (hc : c.validate = .ok ())
    {p : TypeParam} (hp : p ∈ s.typeParams c) : p.IsReal ∨ .named p.var.name ∈ s.args := by
  obtain ⟨arg, position, name, harg, hname, rfl⟩ := exists_of_mem_typeParams hp
  cases arg with
  | explicit t => cases hname
  | named n =>
      cases hname
      exact Or.inr (List.fst_mem_of_mem_zipIdx harg)
  | auto =>
      cases hname
      exact Or.inl (TypeParam.isReal_of_auto hc position _)

/-- Every name that is given is the name of a parameter. -/
theorem Superclass.exists_of_named_mem {s : Superclass} (c : Config) {name : String}
    (h : .named name ∈ s.args) : ∃ p ∈ s.typeParams c, p.var.name = name := by
  obtain ⟨position, hposition⟩ := List.mem_iff_getElem?.mp h
  have harg := List.mk_mem_zipIdx_iff_getElem?.mpr hposition
  obtain ⟨p, hp, hsource⟩ := List.mem_map.mp (sourceName_mem_typeParams (c := c) harg rfl)
  obtain ⟨_, _, _, -, -, rfl⟩ := exists_of_mem_typeParams hp
  exact ⟨_, hp, hsource⟩

namespace HostDecl

variable {index : TraitIndex} {d : HostDecl} {h : Host}

/--
**The parameters of a generated class are real exactly if the names given for them are.** The only
other parameters are those of traits and those with made-up names, and they are always real.
-/
theorem isReal_typeParams_iff (hindex : ∀ t ∈ index.traits, t.IsResolved)
    (hr : (d.resolve index).1 = .ok h) {c : Config} (hc : c.validate = .ok ()) :
    (∀ p ∈ h.typeParams c, p.IsReal ∨ ∃ s, d.superclass = some s ∧ .named p.var.name ∈ s.args)
      ∧ ((∀ p ∈ h.typeParams c, p.IsReal) ↔
          ∀ s, d.superclass = some s → ∀ name, .named name ∈ s.args →
            name ≠ "" ∧ name ≠ TypeVar.wildcardName) := by
  have hall : ∀ p ∈ h.typeParams c,
      p.IsReal ∨ ∃ s, d.superclass = some s ∧ .named p.var.name ∈ s.args := by
    intro p hp
    rcases Host.of_mem_typeParams hp with ⟨s, hs, hp⟩ | ⟨u, hu, hp⟩
    · obtain ⟨s₀, hd, hr'⟩ := (superclass_of_resolve hr).1 s hs
      refine (Superclass.isReal_or_named_mem hc hp).imp_right fun hnamed => ⟨s₀, hd, ?_⟩
      exact (SuperclassDecl.resolves_of_resolve hr').named_mem_iff.mp hnamed
    · obtain ⟨t, ht, hreq⟩ := exists_requalified_of_resolve hr hu
      exact Or.inl (hreq.isReal (hindex t ht).isReal p hp)
  refine ⟨hall, fun hreal s₀ hd name hnamed => ?_, fun hnames p hp => ?_⟩
  · -- a name that is given is listed, so it is one of the real ones
    obtain ⟨s, hs, hr'⟩ := (superclass_of_resolve hr).2 s₀ hd
    have hnamed := (SuperclassDecl.resolves_of_resolve hr').named_mem_iff.mpr hnamed
    obtain ⟨p, hp, rfl⟩ := s.exists_of_named_mem c hnamed
    exact hreal p (Host.mem_typeParams_of_superclass hs hp)
  · rcases hall p hp with hreal | ⟨s₀, hd, hnamed⟩
    · exact hreal
    · exact hnames s₀ hd p.var.name hnamed

/-! ### A crate -/

/-- A class that composes a generic trait and extends a class with the arguments. -/
def extending (args : List ArgumentDecl) : HostDecl :=
  composing ["lib.Box"] (some ⟨"app.Base", [], args⟩)

/-- One argument has a name and one is made up. -/
theorem isReal_typeParams_iff_extending :
    ∃ h : Host,
      ((extending [.named "X", .auto]).resolve (.ofDecls [.generic "lib.Box" "T"])).1 = .ok h
      ∧ (h.typeParams .bare).map (·.sourceName) = ["X", "S1", "Box_T"]
      ∧ ∀ p ∈ h.typeParams .bare, p.IsReal := by
  have hvalid : Config.bare.validate = .ok () := by decide +kernel
  have hresolve : ((extending [.named "X", .auto]).resolve
      (.ofDecls [.generic "lib.Box" "T"])).1.toOption.map
      (fun h => (h.typeParams .bare).map (·.sourceName)) = some ["X", "S1", "Box_T"] := by
    decide +kernel
  obtain ⟨h, hr, hnames⟩ := Option.map_eq_some_iff.mp hresolve
  have hr := toOption_eq_some_iff.mp hr
  refine ⟨h, hr, hnames, ?_⟩
  refine (isReal_typeParams_iff TraitIndex.isResolved_ofDecls hr hvalid).2.mpr ?_
  intro s hs name hnamed
  obtain rfl := Option.some.inj hs
  rcases List.mem_cons.mp hnamed with he | hnamed
  · cases he
    decide
  · cases List.mem_singleton.mp hnamed

/-- An empty name and the wildcard are taken as they are given, and what is written is no class. -/
theorem not_forall_isReal_typeParams :
    (∀ name ∈ ["", "?"], ¬∀ (index : TraitIndex) (h : Host) (c : Config),
        (∀ t ∈ index.traits, t.IsResolved) →
        ((extending [.named name]).resolve index).1 = .ok h → c.validate = .ok () →
        ∀ p ∈ h.typeParams c, p.IsReal)
      ∧ (extending [.named ""]).superclassText? (.ofDecls [.generic "lib.Box" "T"]) =
        some (String.join
          ["package app;\n\n",
            "import lib.BoxDelegate;\n",
            "import lib.BoxTrait;\n\n",
            "public abstract class AbstractCrate<, Box_T> extends Base<> ",
            "implements BoxTrait<Box_T> \x7b\n",
            "    private final BoxDelegate<Box_T> boxDelegate = new BoxDelegate<>(this);\n",
            "\x7d\n"]) := by
  refine ⟨fun name hname hall => ?_, by decide +kernel⟩
  have hvalid : Config.bare.validate = .ok () := by decide +kernel
  have hresolve : ∀ name ∈ ["", "?"], ((extending [.named name]).resolve
      (.ofDecls [.generic "lib.Box" "T"])).1.toOption.map (fun h =>
        decide (∃ p ∈ h.typeParams .bare, p.var.name = "" ∨ p.var.name = TypeVar.wildcardName)) =
          some true := by
    decide +kernel
  obtain ⟨h, hr, hunreal⟩ := Option.map_eq_some_iff.mp (hresolve name hname)
  obtain ⟨p, hp, hname⟩ := of_decide_eq_true hunreal
  have hr := toOption_eq_some_iff.mp hr
  have hreal := hall _ h .bare TraitIndex.isResolved_ofDecls hr hvalid p hp
  exact hname.elim hreal.1 hreal.2

end HostDecl

end TraitWeaver
