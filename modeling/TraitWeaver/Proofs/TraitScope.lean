import TraitWeaver.Proofs.HostResolution
import TraitWeaver.Proofs.Variables

/-!
# Traits keep their variables in scope

A declaration is well scoped if every type in it uses only variables that are
introduced around it. This module shows that a trait inherits that from its
declaration, although none of its variables is the declared one any more: all of
them have been put under the trait's qualifier, and those of interfaces have been
replaced.

What carries the argument is `Instantiation.MapsInto`: a place where types come
from is described by the names that they may use and by what becomes of each
name. The trait itself and each of its interfaces are two such places, and a type
does not have to be looked at more than once for both.
-/

namespace TraitWeaver

/-! ## Declarations -/

/-- The types that a method is declared with. -/
def MethodDecl.types (d : MethodDecl) : List SourceType :=
  d.typeParams.flatMap (·.bounds) ++ d.returns :: d.params.map (·.type) ++ d.throws

/-- A method uses what is around it and its own type parameters. -/
def MethodDecl.WellScoped (d : MethodDecl) (outer : List String) : Prop :=
  ∀ t ∈ d.types, t.varNames ⊆ outer ++ d.typeParams.map (·.name)

/-- The arguments for an interface use what is around them, the interface's methods use the
interface's own parameters. -/
structure InterfaceDecl.WellScoped (i : InterfaceDecl) (outer : List String) : Prop where
  args : ∀ t ∈ i.args, t.varNames ⊆ outer
  methods : ∀ d ∈ i.methods, d.WellScoped i.typeParams

/-- A trait uses its own type parameters, but not in constants. -/
structure TraitDecl.WellScoped (d : TraitDecl) : Prop where
  bounds : ∀ p ∈ d.typeParams, ∀ t ∈ p.bounds, t.varNames ⊆ d.typeParams.map (·.name)
  methods : ∀ m, .method m ∈ d.members → m.WellScoped (d.typeParams.map (·.name))
  constants : ∀ f, .field f ∈ d.members → f.has .public → f.has .static → f.has .final →
    f.type.varNames = []
  interfaces : ∀ i ∈ d.interfaces, i.WellScoped (d.typeParams.map (·.name))

/-! ## Traits -/

/-- The bounds that a parameter is declared with. -/
def TypeParam.bounds (p : TypeParam) : List TypeRef := p.upper ++ p.lower.toList

/-- The types that a method of a trait mentions. -/
def TraitMethod.types (m : TraitMethod) : List TypeRef :=
  m.typeParams.flatMap (·.bounds) ++ m.returns :: m.params.map (·.type) ++ m.throws

/-- The variables of some types are all among those given. -/
def TypeRef.AllWithin (ts : List TypeRef) (vs : List TypeVar) : Prop := ∀ t ∈ ts, t.vars ⊆ vs

/-- Every variable in the trait is one of its own, or in a method one of the method. -/
structure Trait.Scoped (t : Trait) : Prop where
  args : TypeRef.AllWithin t.type.args (t.typeParams.map (·.var))
  bounds : TypeRef.AllWithin (t.typeParams.flatMap (·.bounds)) (t.typeParams.map (·.var))
  methods : ∀ m ∈ t.methods,
    TypeRef.AllWithin m.types (t.typeParams.map (·.var) ++ m.typeParams.map (·.var))
  constants : ∀ k ∈ t.constants, k.type.vars = []
  interfaces : ∀ i ∈ t.interfaces, TypeRef.AllWithin i.type.args (t.typeParams.map (·.var))

/-! ## From a place of declaration into the trait -/

/-- The bounds of a parameter use the names that the declared ones use. -/
theorem TypeParamDecl.vars_subset_of_resolve {d : TypeParamDecl} {p : TypeParam}
    {names : List String} (hp : d.resolve = .ok p)
    (hbounds : ∀ t ∈ d.bounds, t.varNames ⊆ names) : ∀ b ∈ p.upper, b.vars ⊆ names.map .plain := by
  intro b hb
  obtain ⟨-, uss, huss, rfl⟩ := resolve_eq_ok_iff.mp hp
  -- a resolved bound belongs to one of the declared ones, of which an intersection gives several
  obtain ⟨us, hus, hb⟩ := List.mem_flatten.mp hb
  obtain ⟨t, ht, hupper⟩ := exists_rel_of_mem huss hus
  have hvars := SourceType.vars_subset_of_resolveUpper hupper b hb
  exact List.Subset.trans hvars (List.map_subset _ (hbounds t ht))

/-- Whatever one of the names stands for under the instantiation and the qualifier has only
variables of `vs`. -/
structure Instantiation.MapsInto (inst : Instantiation) (q : String) (names : List String)
    (vs : List TypeVar) : Prop where
  free : ∀ name ∈ names, inst.lookup name = none → ⟨name, some q⟩ ∈ vs
  values : ∀ name a, inst.lookup name = some a → a.vars ⊆ vs
  qualified : ∀ v ∈ vs, v.qualifier.isSome

namespace Instantiation.MapsInto

variable {inst : Instantiation} {q : String} {names : List String} {vs : List TypeVar}

/-- In the trait itself a name becomes the variable of that name. -/
theorem nil (q : String) (names : List String) :
    MapsInto [] q names (names.map (⟨·, some q⟩)) where
  free := fun name hname _ => List.mem_map_of_mem hname
  values := by
    intro name a ha
    cases ha
  qualified := by
    intro v hv
    obtain ⟨name, -, rfl⟩ := List.mem_map.mp hv
    rfl

/-- In a method there are its own names too. -/
theorem append (h : inst.MapsInto q names vs) (own : List String) :
    inst.MapsInto q (names ++ own) (vs ++ own.map (⟨·, some q⟩)) where
  free := by
    intro name hname hnone
    rcases List.mem_append.mp hname with hname | hname
    · exact List.mem_append_left _ (h.free name hname hnone)
    · exact List.mem_append_right _ (List.mem_map_of_mem hname)
  values := fun name a ha => List.subset_append_of_subset_left _ (h.values name a ha)
  qualified := by
    intro v hv
    rcases List.mem_append.mp hv with hv | hv
    · exact h.qualified v hv
    · obtain ⟨name, -, rfl⟩ := List.mem_map.mp hv
      rfl

theorem vars_subset (h : inst.MapsInto q names vs) {t : TypeRef}
    (ht : t.vars ⊆ names.map .plain) : ((t.instantiate inst).qualify q).vars ⊆ vs := by
  intro v hv
  have hqualified := fun name a ha w hw => h.qualified w (h.values name a ha hw)
  rcases TypeRef.mem_vars_qualify_instantiate ht hqualified hv with
    ⟨name, hname, hnone, rfl⟩ | ⟨name, a, ha, hv⟩
  · exact h.free name hname hnone
  · exact h.values name a ha hv

/-- **A resolved type has no variables but those that its names stand for.** -/
theorem vars_subset_of_resolveIn (h : inst.MapsInto q names vs) {t : SourceType} {r : TypeRef}
    (hr : t.resolveIn q inst = .ok r) (ht : t.varNames ⊆ names) : r.vars ⊆ vs := by
  obtain ⟨r₀, hr₀, rfl⟩ := SourceType.resolveIn_eq_ok_iff.mp hr
  have hvars := SourceType.vars_subset_of_resolve hr₀
  exact h.vars_subset (List.Subset.trans hvars (List.map_subset _ ht))

/-- The same of all types in a list. -/
theorem allWithin_of_resolveIn (h : inst.MapsInto q names vs) {ts : List SourceType}
    {rs : List TypeRef} (hrs : List.Forall₂ (fun t r => t.resolveIn q inst = .ok r) ts rs)
    (hts : ∀ t ∈ ts, t.varNames ⊆ names) : TypeRef.AllWithin rs vs := by
  intro r hr
  obtain ⟨t, ht, hres⟩ := exists_rel_of_mem hrs hr
  exact h.vars_subset_of_resolveIn hres (hts t ht)

/-- **The bounds of a resolved parameter are in scope if the declared ones are.** -/
theorem allWithin_bounds (h : inst.MapsInto q names vs) {ps : List TypeParamDecl}
    {ps' : List TypeParam} (hps : List.Forall₂ (fun p p' => p.resolveIn q inst = .ok p') ps ps')
    (hbounds : ∀ p ∈ ps, ∀ t ∈ p.bounds, t.varNames ⊆ names) :
    TypeRef.AllWithin (ps'.flatMap (·.bounds)) vs := by
  intro b hb
  obtain ⟨p', hp', hb⟩ := List.mem_flatMap.mp hb
  obtain ⟨p, hp, hres⟩ := exists_rel_of_mem hps hp'
  obtain ⟨p₀, hp₀, -, rfl⟩ := TypeParamDecl.resolveIn_eq_ok_iff.mp hres
  have hb := (List.mem_append.mp hb).resolve_right List.not_mem_nil
  obtain ⟨b₀, hb₀, rfl⟩ := List.mem_map.mp hb
  exact h.vars_subset (TypeParamDecl.vars_subset_of_resolve hp₀ (hbounds p hp) b₀ hb₀)

end Instantiation.MapsInto

/-- The variables of resolved parameters are the declared names under the trait's qualifier. -/
theorem map_var_of_resolveIn {ps : List TypeParamDecl} {ps' : List TypeParam} {q : String}
    {inst : Instantiation} (h : List.Forall₂ (fun p p' => p.resolveIn q inst = .ok p') ps ps') :
    ps'.map (·.var) = (ps.map (·.name)).map (⟨·, some q⟩) := by
  induction h with
  | nil => rfl
  | cons hp _ ih =>
      obtain ⟨p₀, -, -, rfl⟩ := TypeParamDecl.resolveIn_eq_ok_iff.mp hp
      rw [List.map_cons, List.map_cons, List.map_cons, ih]

/-- **A method of a trait is in scope if its declaration is**, wherever it is declared. -/
theorem MethodDecl.Resolves.allWithin {d : MethodDecl} {q : String} {inst : Instantiation}
    {m : TraitMethod} {outer : List String} {vs : List TypeVar} (h : d.Resolves q inst m)
    (hd : d.WellScoped outer) (hinst : inst.MapsInto q outer vs) :
    TypeRef.AllWithin m.types (vs ++ m.typeParams.map (·.var)) := by
  have hown := hinst.append (d.typeParams.map (·.name))
  rw [← map_var_of_resolveIn h.typeParams] at hown
  unfold WellScoped types at hd
  simp only [List.forall_mem_append, List.forall_mem_cons, List.forall_mem_map,
    List.mem_flatMap, forall_exists_index, and_imp] at hd
  obtain ⟨⟨hbounds, hreturns, hparams⟩, hthrows⟩ := hd
  unfold TraitMethod.types TypeRef.AllWithin
  simp only [List.forall_mem_append, List.forall_mem_cons, List.forall_mem_map]
  refine ⟨⟨?_, hown.vars_subset_of_resolveIn h.returns hreturns, ?_⟩,
    hown.allWithin_of_resolveIn h.throws hthrows⟩
  · exact hown.allWithin_bounds h.typeParams (fun p hp t ht => hbounds t p hp ht)
  · intro p' hp'
    obtain ⟨p, hp, type, htype, he⟩ := exists_rel_of_mem h.params hp'
    have hvars := hown.vars_subset_of_resolveIn htype (hparams p hp)
    -- the marker of a varargs parameter does not touch variables
    rcases he with he | ⟨-, he⟩
    · rwa [he]
    · rwa [he, TypeRef.vars_markVarargs]

/-- In the methods of an interface nothing is left of the interface's parameters. -/
theorem InterfaceDecl.Resolves.mapsInto {i : InterfaceDecl} {q : String} {ti : TraitInterface}
    {ms : List TraitMethod} (h : i.Resolves q ti ms) {vs : List TypeVar}
    (hargs : TypeRef.AllWithin ti.type.args vs) (hvs : ∀ v ∈ vs, v.qualifier.isSome) :
    ti.instantiation.MapsInto q i.typeParams vs where
  free := fun _ hname hnone => absurd hnone (h.lookup_ne_none hname)
  values := by
    intro name a ha
    rcases h.eq_root_or_mem_args ha with rfl | ha
    · exact List.nil_subset _
    · exact hargs a ha
  qualified := hvs

/-- **A resolved trait is in scope if its declaration is.** -/
theorem TraitDecl.Resolves.scoped {d : TraitDecl} {t : Trait} (h : d.Resolves t)
    (hd : d.WellScoped) : t.Scoped := by
  have hown := Instantiation.MapsInto.nil t.qualifier (d.typeParams.map (·.name))
  rw [← map_var_of_resolveIn h.typeParams] at hown
  have hargs : ∀ i ∈ d.interfaces, ∀ ti ms, i.Resolves t.qualifier ti ms →
      TypeRef.AllWithin ti.type.args (t.typeParams.map (·.var)) :=
    fun i hi _ _ hres => hown.allWithin_of_resolveIn hres.args (hd.interfaces i hi).args
  refine ⟨?_, hown.allWithin_bounds h.typeParams hd.bounds, ?_, ?_, ?_⟩
  · intro a ha v hv
    rw [h.args] at ha
    obtain ⟨p, hp, rfl⟩ := List.mem_map.mp ha
    rcases TypeRef.mem_vars_param.mp hv with ⟨rfl, -⟩ | ⟨t, ht, -⟩ | ⟨t, ht, -⟩
    · exact List.mem_map.mpr ⟨p, hp, rfl⟩
    · exact absurd ht List.not_mem_nil
    · cases ht
  · intro m hm
    rcases h.parts.methods m hm with ⟨decl, hdecl, hres, -⟩ | ⟨i, hi, ti, ms, hr, hm⟩
    · exact hres.allWithin (hd.methods decl hdecl) hown
    · have hres := InterfaceDecl.resolves_of_resolveIn hr
      obtain ⟨decl, hdecl, hres', -⟩ := exists_rel_of_mem hres.methods hm
      exact hres'.allWithin ((hd.interfaces i hi).methods decl (List.mem_of_mem_filter hdecl))
        (hres.mapsInto (hargs i hi ti ms hres) hown.qualified)
  · intro k hk
    obtain ⟨f, hf, hpublic, hstatic, hfinal, hres⟩ := h.parts.constants k hk
    exact SourceType.vars_eq_nil_of_resolve hres (hd.constants f hf hpublic hstatic hfinal)
  · intro ti hti
    obtain ⟨i, hi, ms, hr⟩ := h.parts.interfaces ti hti
    exact hargs i hi ti ms (InterfaceDecl.resolves_of_resolveIn hr)

/-! ## Under another qualifier -/

theorem TypeRef.AllWithin.requalify {ts : List TypeRef} {vs : List TypeVar}
    (h : AllWithin ts vs) (old new : String) :
    AllWithin (ts.map (·.requalify old new)) (vs.map (.requalify old new)) := by
  intro t' ht'
  obtain ⟨t, ht, rfl⟩ := List.mem_map.mp ht'
  rw [vars_requalify]
  exact List.map_subset _ (h t ht)

theorem TypeParam.map_var_requalify (ps : List TypeParam) (old new : String) :
    (ps.map (·.requalify old new)).map (·.var) = (ps.map (·.var)).map (.requalify old new) := by
  rw [List.map_map, List.map_map]
  rfl

theorem TypeParam.flatMap_bounds_requalify (ps : List TypeParam) (old new : String) :
    (ps.map (·.requalify old new)).flatMap (·.bounds) =
      (ps.flatMap (·.bounds)).map (·.requalify old new) := by
  rw [List.flatMap_map, List.map_flatMap]
  refine List.flatMap_congr (fun p _ => ?_)
  unfold bounds requalify
  rw [List.map_append]
  cases p.lower with
  | none => rfl
  | some t => rfl

theorem TraitMethod.types_requalify (m : TraitMethod) (old new : String) :
    (m.requalify old new).types = m.types.map (·.requalify old new) := by
  unfold types requalify
  simp only [TypeParam.flatMap_bounds_requalify, List.map_append, List.map_cons, List.map_map]
  rfl

namespace Trait

/-- **A change of qualifier keeps a trait in scope**, since it renames uses and declarations
alike. -/
theorem Scoped.requalify {t : Trait} (h : t.Scoped) (new : String) : (t.requalify new).Scoped := by
  have hparams := TypeParam.map_var_requalify t.typeParams t.qualifier new
  refine ⟨?_, ?_, ?_, ?_, ?_⟩
  · show TypeRef.AllWithin (t.type.args.map (·.requalify t.qualifier new)) _
    rw [Trait.requalify, hparams]
    exact h.args.requalify _ _
  · show TypeRef.AllWithin ((t.typeParams.map (·.requalify t.qualifier new)).flatMap _) _
    rw [Trait.requalify, hparams, TypeParam.flatMap_bounds_requalify]
    exact h.bounds.requalify _ _
  · intro m' hm'
    obtain ⟨m, hm, rfl⟩ := List.mem_map.mp hm'
    have hown := TypeParam.map_var_requalify m.typeParams t.qualifier new
    rw [TraitMethod.types_requalify]
    have := (h.methods m hm).requalify t.qualifier new
    rw [List.map_append, ← hparams, ← hown] at this
    exact this
  · intro k' hk'
    obtain ⟨k, hk, rfl⟩ := List.mem_map.mp hk'
    dsimp only
    rw [TypeRef.vars_requalify, h.constants k hk]
    rfl
  · intro i' hi'
    obtain ⟨i, hi, rfl⟩ := List.mem_map.mp hi'
    show TypeRef.AllWithin (i.type.args.map (·.requalify t.qualifier new)) _
    rw [Trait.requalify, hparams]
    exact (h.interfaces i hi).requalify _ _

theorem Requalified.scoped {t u : Trait} (hreq : Requalified t u) (h : t.Scoped) : u.Scoped := by
  rcases hreq with rfl | ⟨q, rfl⟩
  · exact h
  · exact h.requalify q

end Trait

end TraitWeaver
