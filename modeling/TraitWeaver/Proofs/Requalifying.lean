import TraitWeaver.Proofs.EveryVariable
import TraitWeaver.Proofs.HostResolution
import TraitWeaver.Proofs.TraitTypes

/-!
# Moving a trait to another qualifier and back

Every variable of a trait is under its qualifier. It gets there in several places: by
itself for type parameters, in a walk for types, and for an inherited method after
arguments were put in that are under the qualifier already. Then a host may move the
trait, which walks through parameters and types once more.

A variable that is skipped by the first walk, or under another name, would be skipped by
the second and never come back. So what carries everything is that all variables are
under one qualifier, and wildcards under none (`TypeVar.QualifiedBy`). It is so of any
type in the terms of a trait, and with it of the trait. Moving a trait is then a renaming
of its variables, which can be undone on each of them.
-/

namespace TraitWeaver

/-! ## Variables -/

namespace TypeVar

/-- The variable is under the qualifier and no other; a wildcard is under none. -/
def QualifiedBy (q : String) (v : TypeVar) : Prop :=
  v.qualifier = if v.isWildcard then none else some q

variable {q old new : String} {v : TypeVar}

theorem QualifiedBy.eq_of_qualifier {q' : String} (h : v.QualifiedBy q)
    (hv : v.qualifier = some q') : q = q' := by
  unfold QualifiedBy at h
  rw [hv] at h
  split at h
  · cases h
  · exact (Option.some.inj h).symm

/-- A plain variable takes the qualifier, unless it is a wildcard; one that is under it stays. -/
theorem qualifiedBy_qualify (h : v.qualifier = none ∨ v.QualifiedBy q) :
    (v.qualify q).QualifiedBy q := by
  unfold QualifiedBy at h ⊢
  rw [isWildcard_qualify]
  unfold qualify
  cases hw : v.isWildcard with
  | true =>
      rw [hw] at h
      simpa using h
  | false =>
      rw [hw] at h
      rcases h with h | h
      · simp [h]
      · simp [show v.qualifier = some q from h]

theorem QualifiedBy.requalify (h : v.QualifiedBy old) (new : String) :
    (v.requalify old new).QualifiedBy new := by
  unfold QualifiedBy at h ⊢
  rw [isWildcard_requalify]
  unfold TypeVar.requalify
  cases hw : v.isWildcard with
  | true =>
      rw [hw] at h
      simp [show v.qualifier = none from h]
  | false =>
      rw [hw] at h
      simp [show v.qualifier = some old from h]

end TypeVar

/-! ## Renaming the variables of a trait -/

/-- Renames the parameter and the variables in its bounds. -/
def TypeParam.mapVars (f : TypeVar → TypeVar) (p : TypeParam) : TypeParam :=
  ⟨f p.var, p.upper.map (·.mapVars f), p.lower.map (·.mapVars f)⟩

namespace TraitMethod

/-- The types in a method, with its type parameters as types. -/
def refs (m : TraitMethod) : List TypeRef :=
  m.typeParams.map (·.toRef) ++ m.returns :: (m.params.map (·.type) ++ m.throws)

def mapVars (f : TypeVar → TypeVar) (m : TraitMethod) : TraitMethod :=
  { m with
    typeParams := m.typeParams.map (·.mapVars f)
    returns := m.returns.mapVars f
    params := m.params.map fun p => ⟨p.type.mapVars f, p.name⟩
    throws := m.throws.map (·.mapVars f) }

end TraitMethod

namespace TraitInterface

/-- The types in an interface: its arguments and what is put for its parameters. -/
def refs (i : TraitInterface) : List TypeRef := i.type.args ++ i.instantiation.map (·.2)

def mapVars (f : TypeVar → TypeVar) (i : TraitInterface) : TraitInterface :=
  { type := ⟨i.type.name, i.type.args.map (·.mapVars f)⟩
    instantiation := i.instantiation.map fun (name, type) => (name, type.mapVars f) }

end TraitInterface

namespace Trait

/-- The types in a trait, with its type parameters as types and without its constants. -/
def refs (t : Trait) : List TypeRef :=
  t.type.args ++ t.typeParams.map (·.toRef) ++ t.methods.flatMap (·.refs) ++
    t.interfaces.flatMap (·.refs)

/-- Renames every variable of the trait. -/
def mapVars (f : TypeVar → TypeVar) (t : Trait) : Trait :=
  { type := ⟨t.type.name, t.type.args.map (·.mapVars f)⟩
    qualifier := t.qualifier
    typeParams := t.typeParams.map (·.mapVars f)
    methods := t.methods.map (·.mapVars f)
    constants := t.constants.map fun c => ⟨c.name, c.type.mapVars f⟩
    interfaces := t.interfaces.map (·.mapVars f) }

/-- The trait without qualifiers, and with everything else that it has. -/
def erased (t : Trait) : Trait := { t.mapVars TypeVar.erased with qualifier := "" }

/-- Every variable is under the qualifier. -/
def QualifiedBy (t : Trait) (q : String) : Prop := ∀ r ∈ t.refs, r.Every (·.QualifiedBy q)

end Trait

variable {f g : TypeVar → TypeVar}

theorem TypeParam.toRef_mapVars (p : TypeParam) : (p.mapVars f).toRef = p.toRef.mapVars f :=
  (TypeRef.mapVars_param f p.var p.upper p.lower .scalar).symm

theorem TypeParam.requalify_eq_mapVars (p : TypeParam) (old new : String) :
    p.requalify old new = p.mapVars (.requalify old new) := by
  unfold TypeParam.requalify TypeParam.mapVars TypeVar.requalify
  simp only [TypeRef.requalify_eq_mapVars]
  rfl

theorem TraitMethod.requalify_eq_mapVars (m : TraitMethod) (old new : String) :
    m.requalify old new = m.mapVars (.requalify old new) := by
  unfold TraitMethod.requalify TraitMethod.mapVars
  simp only [TypeRef.requalify_eq_mapVars, TypeParam.requalify_eq_mapVars]

/-- **Moving a trait is renaming its variables.** -/
theorem Trait.requalify_eq_mapVars (t : Trait) (q : String) :
    t.requalify q = { t.mapVars (.requalify t.qualifier q) with qualifier := q } := by
  unfold Trait.requalify Trait.mapVars TraitInterface.mapVars
  simp only [TypeRef.requalify_eq_mapVars, TypeParam.requalify_eq_mapVars,
    TraitMethod.requalify_eq_mapVars]

theorem TypeParam.mapVars_mapVars (p : TypeParam) :
    (p.mapVars f).mapVars g = p.mapVars (g ∘ f) := by
  simp [TypeParam.mapVars, TypeRef.mapVars_mapVars, Function.comp_def]

theorem TraitMethod.mapVars_mapVars (m : TraitMethod) :
    (m.mapVars f).mapVars g = m.mapVars (g ∘ f) := by
  simp [TraitMethod.mapVars, TypeRef.mapVars_mapVars, TypeParam.mapVars_mapVars,
    Function.comp_def]

/-- **Renaming a trait twice is renaming it by the composite.** -/
theorem Trait.mapVars_mapVars (t : Trait) : (t.mapVars f).mapVars g = t.mapVars (g ∘ f) := by
  simp [Trait.mapVars, TraitInterface.mapVars, TypeRef.mapVars_mapVars,
    TypeParam.mapVars_mapVars, TraitMethod.mapVars_mapVars, Function.comp_def]

/-! ## What leaves a trait alone -/

theorem map_eq_self_of_forall {α : Type} {h : α → α} {l : List α} (hl : ∀ a ∈ l, h a = a) :
    l.map h = l :=
  (List.map_congr_left hl).trans (List.map_id' l)

theorem TypeParam.mapVars_eq_self {p : TypeParam} (h : p.toRef.Every fun v => f v = v) :
    p.mapVars f = p := by
  obtain ⟨var, upper, lower⟩ := p
  have heq := (TypeParam.toRef_mapVars _).trans (TypeRef.mapVars_eq_self h)
  obtain ⟨hvar, hupper, hlower, -⟩ := TypeRef.param.inj heq
  exact TypeParam.mk.injEq .. ▸ ⟨hvar, hupper, hlower⟩

theorem TraitMethod.mapVars_eq_self {m : TraitMethod}
    (h : ∀ r ∈ m.refs, r.Every fun v => f v = v) : m.mapVars f = m := by
  unfold refs at h
  simp only [List.forall_mem_append, List.forall_mem_cons, List.forall_mem_map] at h
  obtain ⟨htypeParams, hreturns, hparams, hthrows⟩ := h
  have hps := map_eq_self_of_forall fun p hp => TypeParam.mapVars_eq_self (htypeParams p hp)
  have hthrow := map_eq_self_of_forall fun r hr => TypeRef.mapVars_eq_self (hthrows r hr)
  have hparam : (m.params.map fun p => (⟨p.type.mapVars f, p.name⟩ : Parameter)) = m.params :=
    map_eq_self_of_forall fun p hp => by
      rw [TypeRef.mapVars_eq_self (hparams p hp)]
  unfold mapVars
  rw [hps, hthrow, hparam, TypeRef.mapVars_eq_self hreturns]

theorem TraitInterface.mapVars_eq_self {i : TraitInterface}
    (h : ∀ r ∈ i.refs, r.Every fun v => f v = v) : i.mapVars f = i := by
  unfold refs at h
  simp only [List.forall_mem_append, List.forall_mem_map] at h
  obtain ⟨hargs, hvalues⟩ := h
  have harg := map_eq_self_of_forall fun r hr => TypeRef.mapVars_eq_self (hargs r hr)
  have hvalue : (i.instantiation.map fun (name, type) => (name, type.mapVars f)) =
      i.instantiation := map_eq_self_of_forall fun e he =>
    Prod.ext rfl (TypeRef.mapVars_eq_self (hvalues e he))
  unfold mapVars
  rw [harg, hvalue]

/-- **A renaming that leaves all variables of a trait alone leaves the trait alone.** -/
theorem Trait.mapVars_eq_self {t : Trait} (h : ∀ r ∈ t.refs, r.Every fun v => f v = v)
    (hconstants : ∀ k ∈ t.constants, k.type.Every fun v => f v = v) : t.mapVars f = t := by
  unfold refs at h
  simp only [List.forall_mem_append, List.forall_mem_map, List.forall_mem_flatMap] at h
  obtain ⟨⟨⟨hargs, htypeParams⟩, hmethods⟩, hinterfaces⟩ := h
  have harg := map_eq_self_of_forall fun r hr => TypeRef.mapVars_eq_self (hargs r hr)
  have hps := map_eq_self_of_forall fun p hp => TypeParam.mapVars_eq_self (htypeParams p hp)
  have hms := map_eq_self_of_forall fun m hm => TraitMethod.mapVars_eq_self (hmethods m hm)
  have his := map_eq_self_of_forall fun i hi => TraitInterface.mapVars_eq_self (hinterfaces i hi)
  have hks : (t.constants.map fun k => (⟨k.name, k.type.mapVars f⟩ : TraitConstant)) =
      t.constants := map_eq_self_of_forall fun k hk => by
    rw [TypeRef.mapVars_eq_self (hconstants k hk)]
  unfold mapVars
  rw [harg, hps, hms, his, hks]

/-! ## Moving and moving back -/

namespace TypeRef

variable {q : String} {t : TypeRef}

theorem every_requalify (h : t.Every (·.QualifiedBy q)) (new : String) :
    (t.requalify q new).Every (·.QualifiedBy new) := by
  rw [requalify_eq_mapVars, every_mapVars_iff]
  exact h.mono fun v hv => hv.requalify new

end TypeRef

namespace Trait

variable {t : Trait} {q : String}

theorem refs_mapVars (f : TypeVar → TypeVar) (t : Trait) :
    (t.mapVars f).refs = t.refs.map (·.mapVars f) := by
  unfold refs mapVars TraitMethod.refs TraitInterface.refs TraitMethod.mapVars
    TraitInterface.mapVars
  simp [List.map_flatMap, List.flatMap_map, Function.comp_def, TypeParam.toRef_mapVars]

/-- **What was under one qualifier is under the other.** -/
theorem QualifiedBy.requalify (h : t.QualifiedBy t.qualifier) (q : String) :
    (t.requalify q).QualifiedBy q := by
  rw [requalify_eq_mapVars]
  show ∀ r ∈ (t.mapVars (.requalify t.qualifier q)).refs, _
  rw [refs_mapVars, List.forall_mem_map]
  intro r hr
  rw [← TypeRef.requalify_eq_mapVars]
  exact TypeRef.every_requalify (h r hr) q

/-- **Nothing but qualifiers changes.** -/
theorem erased_requalify (t : Trait) (q : String) : (t.requalify q).erased = t.erased := by
  have hcomp : TypeVar.erased ∘ TypeVar.requalify t.qualifier q = TypeVar.erased :=
    funext (TypeVar.erased_requalify t.qualifier q)
  have hmap : (t.mapVars (.requalify t.qualifier q)).mapVars .erased = t.mapVars .erased := by
    rw [mapVars_mapVars, hcomp]
  rw [requalify_eq_mapVars]
  show { (t.mapVars (.requalify t.qualifier q)).mapVars .erased with qualifier := "" } = t.erased
  rw [hmap]
  rfl

/-- **Moving a trait can be undone** if its variables are under its qualifier or under none. -/
theorem requalify_requalify (h : t.QualifiedBy t.qualifier)
    (hconstants : ∀ k ∈ t.constants, k.type.Every (·.qualifier = none)) (q : String) :
    (t.requalify q).requalify t.qualifier = t := by
  have hback : (t.mapVars (.requalify t.qualifier q)).mapVars (.requalify q t.qualifier) = t := by
    rw [mapVars_mapVars]
    refine mapVars_eq_self (fun r hr => (h r hr).mono fun v hv => ?_) fun k hk =>
      (hconstants k hk).mono fun v hv => ?_
    · exact TypeVar.requalify_requalify hv.eq_of_qualifier
    · exact TypeVar.requalify_requalify fun hq => nomatch hv.symm.trans hq
  rw [requalify_eq_mapVars, requalify_eq_mapVars]
  show { (t.mapVars (.requalify t.qualifier q)).mapVars (.requalify q t.qualifier) with
    qualifier := t.qualifier } = t
  rw [hback]

end Trait

/-! ## What a declaration resolves to -/

section

variable {q : String} {inst : Instantiation}

/-- **In the terms of a trait**, all that was without a qualifier takes the trait's, and what is put
for the parameters of an interface has it. -/
theorem TypeRef.every_qualify_instantiate {t : TypeRef} (ht : t.Every (·.qualifier = none))
    (hinst : ∀ e ∈ inst, e.2.Every (·.QualifiedBy q)) :
    ((t.instantiate inst).qualify q).Every (·.QualifiedBy q) := by
  rw [qualify_eq_mapVars, every_mapVars_iff, instantiate_eq_rewrite]
  refine ht.rewrite (fun v hv _ => TypeVar.qualifiedBy_qualify (Or.inl hv)) fun v r hr => ?_
  unfold Instantiation.value? at hr
  split at hr
  · cases hr
  · exact (hinst _ (mem_of_lookup_eq_some hr)).mono fun w hw =>
      TypeVar.qualifiedBy_qualify (Or.inr hw)

/-- Types in the terms of a trait are under its qualifier. -/
theorem TypeRef.holdsIn_every_qualifiedBy (q : String) :
    HoldsIn q (·.Every (·.QualifiedBy q)) where
  root := every_declared_iff.mpr fun _ ht => absurd ht List.not_mem_nil
  spelled hres hinst := every_qualify_instantiate (SourceType.every_plain_of_resolvesTo hres) hinst
  param {name upper} hname hupper := by
    have hw : (⟨name, some q⟩ : TypeVar).isWildcard = false := decide_eq_false hname
    refine every_param_iff.mpr ⟨?_, hupper, by simp⟩
    unfold TypeVar.QualifiedBy
    rw [hw]
    rfl

end

/-- **All variables of a resolved trait are under its qualifier.** -/
theorem TraitDecl.Resolves.qualifiedBy {d : TraitDecl} {t : Trait} (h : d.Resolves t) :
    t.QualifiedBy t.qualifier := by
  have hholds := h.holds (TypeRef.holdsIn_every_qualifiedBy t.qualifier)
  have hmethods : ∀ m ∈ t.methods, ∀ r ∈ m.refs, r.Every (·.QualifiedBy t.qualifier) := by
    intro m hm
    obtain ⟨htypeParams, hreturns, hparams, hthrows⟩ := hholds.methods m hm
    unfold TraitMethod.refs
    simp only [List.forall_mem_append, List.forall_mem_cons, List.forall_mem_map]
    refine ⟨htypeParams, hreturns, fun p hp => ?_, hthrows⟩
    -- the marker of a last parameter does not touch variables
    obtain ⟨type, hevery, htype | htype⟩ := hparams p hp
    · rw [htype]
      exact hevery
    · rw [htype]
      exact TypeRef.every_withDims_iff.mpr hevery
  have hinterfaces : ∀ i ∈ t.interfaces, ∀ r ∈ i.refs, r.Every (·.QualifiedBy t.qualifier) := by
    intro i hi
    unfold TraitInterface.refs
    rw [List.forall_mem_append, List.forall_mem_map]
    exact ⟨hholds.interfaceArgs i hi, hholds.instantiations i hi⟩
  unfold Trait.QualifiedBy Trait.refs
  simp only [List.forall_mem_append, List.forall_mem_map, List.forall_mem_flatMap]
  exact ⟨⟨⟨hholds.args, hholds.typeParams⟩, hmethods⟩, hinterfaces⟩

/-- The types of constants are as they are declared. -/
theorem TraitDecl.Resolves.every_constants {d : TraitDecl} {t : Trait} (h : d.Resolves t) :
    ∀ k ∈ t.constants, k.type.Every (·.qualifier = none) := by
  intro k hk
  obtain ⟨f, -, -, -, -, hres⟩ := h.parts.constants k hk
  exact f.type.every_plain_of_resolve.1 k.type hres

/-- **A resolved trait is under its simple name, and moving it to another qualifier loses nothing.**
It is under that one then, with the same signatures and everything else as it was, and can be moved
back. -/
theorem TraitDecl.movable_of_resolve {d : TraitDecl} {config : Config} {t : Trait}
    {ds : List Diagnostic} (hr : d.resolve config = .ok (t, ds)) :
    t.qualifier = t.name.simple
      ∧ t.QualifiedBy t.name.simple
      ∧ ∀ q, (t.requalify q).qualifier = q
        ∧ (t.requalify q).QualifiedBy q
        ∧ (t.requalify q).erased = t.erased
        ∧ (t.requalify q).methods.map (·.key) = t.methods.map (·.key)
        ∧ (t.requalify q).requalify t.qualifier = t := by
  have hname := qualifier_of_resolve hr
  have hresolves := resolves_of_resolve hr
  have hqualified := hresolves.qualifiedBy
  refine ⟨hname, hname ▸ hqualified, fun q => ⟨rfl, hqualified.requalify q, t.erased_requalify q,
    ?_, Trait.requalify_requalify hqualified hresolves.every_constants q⟩⟩
  show (t.methods.map (·.requalify t.qualifier q)).map (·.key) = t.methods.map (·.key)
  rw [List.map_map]
  exact List.map_congr_left fun m _ => m.key_requalify t.qualifier q

/-- A trait with a variable in a wildcard's bound, in a bound of a method's parameter and in what is
put for the parameter of an interface. -/
def TraitDecl.store : TraitDecl :=
  let e : SourceType := .typeVariable "E" none none
  let r : SourceType := .typeVariable "R" none none
  let t : SourceType := .typeVariable "T" none none
  { name := "lib.Store"
    typeParams := [⟨"E", [.declared "java.lang.Comparable" [.wildcard none (some e)]]⟩]
    superclass := none
    interfaces := [⟨"lib.Source", ["T"], [.array e],
      [⟨"next", [.public, .abstract], [], t, [], false, [], false⟩]⟩]
    members := [.method ⟨"copyTo", [.public], [⟨"R", [.declared "java.util.List" [e]]⟩], r,
      [⟨"target", r⟩], false, [], false⟩] }

/-- The store is another trait under another qualifier, and the same again under its own. -/
theorem TraitDecl.movable_store :
    ∃ t ds, store.resolve .bare = .ok (t, ds)
      ∧ t.QualifiedBy "Store"
      ∧ t.requalify "Store2" ≠ t
      ∧ (t.requalify "Store2").QualifiedBy "Store2"
      ∧ (t.requalify "Store2").requalify "Store" = t := by
  have hresolve : (store.resolve .bare).toOption.map (fun r =>
      (r.1.name.simple, decide (r.1.requalify "Store2" ≠ r.1))) = some ("Store", true) := by
    decide +kernel
  obtain ⟨⟨t, ds⟩, hr, he⟩ := Option.map_eq_some_iff.mp hresolve
  obtain ⟨hname, hne⟩ := Prod.mk.inj he
  have hname : t.name.simple = "Store" := hname
  have hr := toOption_eq_some_iff.mp hr
  obtain ⟨hqualifier, hqualified, hmove⟩ := movable_of_resolve hr
  obtain ⟨-, hmoved, -, -, hback⟩ := hmove "Store2"
  rw [hqualifier, hname] at hback
  exact ⟨t, ds, hr, hname ▸ hqualified, of_decide_eq_true hne, hmoved, hback⟩

end TraitWeaver
