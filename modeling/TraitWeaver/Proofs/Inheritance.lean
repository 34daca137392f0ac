import TraitWeaver.Proofs.EveryVariable
import TraitWeaver.Proofs.TraitScope

/-!
# What a trait inherits from an interface

A type in a method of an interface stands in two scopes: a name may be a type
parameter of the method or one of the interface, and the inner scope comes first.
When the method is inherited, a parameter of the interface becomes what the trait
puts for it, and that brings a third scope in, the parameters of the trait. What
is meant is said here by `TypeRef.InheritedAs`, without regard to how it is done:

* a parameter of the method stays a parameter of the method;
* a parameter of the interface becomes the trait's argument, under the array
  dimensions of the occurrence;
* nothing in an argument becomes a parameter of the method.

It is done with one table of names for all scopes. That gives what is meant as
long as the method's parameters have names of their own, and for no other choice
of names is it sure to do so (`TypeRef.forall_inheritedAs_iff`).
-/

namespace TraitWeaver

/-- What a trait puts for a variable: what the table has for its name, or else the variable under the
trait's qualifier. -/
def Instantiation.put? (inst : Instantiation) (q : String) (p : TypeParam) :
    Option TypeRef :=
  if p.var.qualifier.isSome then none
  else
    match inst.lookup p.var.name with
    | some argument => some (argument.qualify q)
    | none => if p.isWildcard then none else some (p.withQualifier (some q)).toRef

namespace TypeRef

/-! ## What is meant -/

/-- A type in a method of an interface, in the terms of the trait that inherits the method. The
method's own parameters are given with the variables that they become. -/
def inherit (t : TypeRef) (own : List (String × TypeVar)) (inst : Instantiation) (q : String) :
    TypeRef :=
  t.rewrite fun p =>
    if p.var.qualifier.isSome then none
    else
      match own.lookup p.var.name with
      | some v => some (TypeParam.toRef ⟨v, p.upper, p.lower⟩)
      | none =>
        match inst.lookup p.var.name with
        | some argument => some argument
        | none => if p.isWildcard then none else some (p.withQualifier (some q)).toRef

/-- The second type is what the first one becomes when it is inherited, and no variable of an
argument is bound by the method. -/
structure InheritedAs (own : List (String × TypeVar)) (inst : Instantiation) (q : String)
    (t t' : TypeRef) : Prop where
  eq : t' = t.inherit own inst q
  uncaptured : ∀ v ∈ t.vars, own.lookup v.name = none →
    ∀ argument, inst.lookup v.name = some argument → ∀ w ∈ argument.vars, w ∉ own.map Prod.snd

/-- An occurrence of a parameter of the method is one of what the parameter becomes. -/
theorem inherit_own {own : List (String × TypeVar)} {inst : Instantiation} {q name : String}
    {v : TypeVar} (h : own.lookup name = some v) (upper : List TypeRef) (lower : Option TypeRef)
    (dims : Dims) :
    inherit (.param (.plain name) upper lower dims) own inst q =
      .param v (upper.map (inherit · own inst q)) (lower.map (inherit · own inst q)) dims := by
  unfold inherit
  rw [rewrite_param]
  simp only [TypeVar.plain, Option.isSome_none, Bool.false_eq_true, if_false, h, under_toRef]

/-! ## What is done -/

theorem mapVars_under (f : TypeVar → TypeVar) (t : TypeRef) (d : Dims) :
    (t.under d).mapVars f = (t.mapVars f).under d := by
  cases t with
  | declared => rw [mapVars_declared, under, withDims, mapVars_declared]; rfl
  | param => rw [mapVars_param, under, withDims, mapVars_param]; rfl

theorem qualify_under (t : TypeRef) (d : Dims) (q : String) :
    (t.under d).qualify q = (t.qualify q).under d := by
  rw [qualify_eq_mapVars, qualify_eq_mapVars, mapVars_under]

theorem qualify_eq_self {t : TypeRef} (h : ∀ v ∈ t.vars, v.qualifier.isSome) (q : String) :
    t.qualify q = t := by
  rw [qualify_eq_mapVars]
  refine mapVars_eq_self (every_of_vars (fun v hv => ?_) fun v hv =>
    TypeVar.qualify_of_isSome (h v hv))
  unfold TypeVar.qualify
  rw [hv]
  rfl

/-- **Replacing and qualifying are one replacement**, which asks the table first. -/
theorem qualify_instantiate (t : TypeRef) (inst : Instantiation) (q : String) :
    (t.instantiate inst).qualify q = t.rewrite (inst.put? q) := by
  rw [instantiate_eq_rewrite]
  induction t with
  | declared name args dims ih =>
      rw [rewrite_declared, rewrite_declared, qualify_eq_mapVars, mapVars_declared, List.map_map]
      refine congrArg (TypeRef.declared name · dims) (List.map_congr_left fun a ha => ?_)
      rw [← ih a ha, qualify_eq_mapVars]
      rfl
  | param var upper lower dims ihu ihl =>
      have hu : (upper.map (rewrite fun p => inst.value? p.var)).map (mapVars (.qualify q)) =
          upper.map (rewrite (inst.put? q)) := by
        rw [List.map_map]
        refine List.map_congr_left fun u hu => ?_
        rw [← ihu u hu, qualify_eq_mapVars]
        rfl
      have hl : (lower.map (rewrite fun p => inst.value? p.var)).map (mapVars (.qualify q)) =
          lower.map (rewrite (inst.put? q)) := by
        cases lower with
        | none => rfl
        | some t =>
            refine congrArg some ?_
            rw [← ihl t rfl, qualify_eq_mapVars]
      rw [rewrite_param, rewrite_param, ← hu, ← hl]
      unfold Instantiation.value? Instantiation.put?
      dsimp only
      by_cases hq : var.qualifier.isSome = true
      · rw [if_pos hq, if_pos hq]
        dsimp only
        rw [qualify_eq_mapVars, mapVars_param, TypeVar.qualify_of_isSome hq]
      · rw [if_neg hq, if_neg hq]
        cases inst.lookup var.name with
        | some argument => exact qualify_under _ _ _
        | none =>
            dsimp only
            rw [qualify_eq_mapVars, mapVars_param]
            unfold TypeVar.qualify TypeParam.isWildcard
            cases var.isWildcard with
            | true => simp
            | false => simp [hq, under_toRef, TypeParam.withQualifier]

theorem qualify_instantiate_of_lookup {inst : Instantiation} {name : String} {argument : TypeRef}
    (h : inst.lookup name = some argument) (q : String) (upper : List TypeRef)
    (lower : Option TypeRef) (dims : Dims) :
    ((TypeRef.param (.plain name) upper lower dims).instantiate inst).qualify q =
      (argument.qualify q).under dims := by
  rw [qualify_instantiate, rewrite_param]
  unfold Instantiation.put?
  simp only [TypeVar.plain, Option.isSome_none, Bool.false_eq_true, if_false, h]

end TypeRef

/-! ## Names that are apart -/

/-- The names are neither in the table nor used by anything that the table has. -/
structure Instantiation.Apart (inst : Instantiation) (own : List String) : Prop where
  unlisted : ∀ name ∈ own, inst.lookup name = none
  unused : ∀ name argument, inst.lookup name = some argument → ∀ v ∈ argument.vars, v.name ∉ own

/-- What the parameters of a method become in a trait. -/
def TypeVar.bindings (own : List String) (q : String) : List (String × TypeVar) :=
  own.map fun name => (name, ⟨name, some q⟩)

theorem TypeVar.lookup_bindings (own : List String) (q name : String) :
    (bindings own q).lookup name = if name ∈ own then some ⟨name, some q⟩ else none := by
  have hkeys : (bindings own q).map Prod.fst = own := by
    unfold bindings
    rw [List.map_map]
    exact List.map_id own
  by_cases hname : name ∈ own
  · rw [if_pos hname]
    cases hl : (bindings own q).lookup name with
    | none => exact absurd (hkeys.symm ▸ hname) (lookup_eq_none_iff.mp hl)
    | some v =>
        obtain ⟨name', -, he⟩ := List.mem_map.mp (mem_of_lookup_eq_some hl)
        obtain ⟨rfl, rfl⟩ := Prod.mk.inj he
        rfl
  · rw [if_neg hname]
    exact lookup_eq_none_iff.mpr (hkeys.symm ▸ hname)

namespace TypeRef

variable {own : List String} {inst : Instantiation} {q : String}

/-- **With names that are apart, a type is inherited as it is meant.** -/
theorem inheritedAs_of_apart (hown : ∀ name ∈ own, name ≠ TypeVar.wildcardName)
    (hinst : ∀ name argument, inst.lookup name = some argument →
      ∀ v ∈ argument.vars, v.qualifier.isSome)
    (hapart : inst.Apart own) (t : TypeRef) :
    t.InheritedAs (TypeVar.bindings own q) inst q ((t.instantiate inst).qualify q) where
  eq := by
    rw [qualify_instantiate]
    unfold inherit
    congr 1
    funext p
    -- the two replacements agree on every variable
    unfold Instantiation.put?
    by_cases hq : p.var.qualifier.isSome = true
    · rw [if_pos hq, if_pos hq]
    · rw [if_neg hq, if_neg hq, TypeVar.lookup_bindings]
      by_cases hname : p.var.name ∈ own
      · have hwild : p.isWildcard = false := decide_eq_false (hown _ hname)
        rw [if_pos hname, hapart.unlisted _ hname, hwild]
        rfl
      · rw [if_neg hname]
        cases hl : inst.lookup p.var.name with
        | none => rfl
        | some argument =>
            dsimp only
            rw [qualify_eq_self (hinst _ _ hl)]
  uncaptured := by
    intro v _ _ argument hl w hw hmem
    obtain ⟨⟨name, _⟩, hbinding, rfl⟩ := List.mem_map.mp hmem
    obtain ⟨name', hname', he⟩ := List.mem_map.mp hbinding
    obtain ⟨rfl, rfl⟩ := Prod.mk.inj he
    exact hapart.unused _ _ hl _ hw hname'

/--
**With other names, some type is not.** If a parameter of the method is called like one of the
interface, its own uses are replaced as well; if an argument uses a variable of that name, it means
the method's parameter once it is inherited.
-/
theorem forall_inheritedAs_iff (hown : ∀ name ∈ own, name ≠ TypeVar.wildcardName)
    (hwild : inst.lookup TypeVar.wildcardName = none)
    (hinst : ∀ name argument, inst.lookup name = some argument →
      ∀ v ∈ argument.vars, v.qualifier = some q) :
    (∀ t : TypeRef, t.InheritedAs (TypeVar.bindings own q) inst q ((t.instantiate inst).qualify q))
      ↔ inst.Apart own := by
  refine ⟨fun h => ?_, fun hapart t => inheritedAs_of_apart hown ?_ hapart t⟩
  · have hunlisted : ∀ name ∈ own, inst.lookup name = none := by
      intro name hname
      by_contra hne
      obtain ⟨argument, hl⟩ := Option.ne_none_iff_exists'.mp hne
      have hbound : (TypeVar.bindings own q).lookup name = some ⟨name, some q⟩ := by
        rw [TypeVar.lookup_bindings, if_pos hname]
      -- the argument cannot be the parameter both with a bound and without one
      have hbare := (h (.param (.plain name) [] none .scalar)).eq
      have hbounded := (h (.param (.plain name) [.plain .root] none .scalar)).eq
      rw [qualify_instantiate_of_lookup hl, inherit_own hbound] at hbare hbounded
      have hupper := (TypeRef.param.inj (hbare.symm.trans hbounded)).2.1
      exact absurd hupper (by simp)
    refine ⟨hunlisted, fun name argument hl v hv hmem => ?_⟩
    have hname : name ∉ own := by
      intro hname
      rw [hunlisted name hname] at hl
      cases hl
    have hvar : TypeVar.plain name ∈ (param (.plain name) [] none .scalar).vars := by
      refine mem_vars_param.mpr (Or.inl ⟨rfl, decide_eq_false ?_⟩)
      rintro rfl
      rw [hwild] at hl
      cases hl
    have hfree : (TypeVar.bindings own q).lookup name = none := by
      rw [TypeVar.lookup_bindings, if_neg hname]
    refine (h _).uncaptured _ hvar hfree argument hl v hv ?_
    refine List.mem_map.mpr ⟨(v.name, v), ?_, rfl⟩
    have hv' : v = ⟨v.name, some q⟩ := by
      rw [← hinst name argument hl v hv]
    exact List.mem_map.mpr ⟨v.name, hmem, by rw [← hv']⟩
  · intro name argument hl v hv
    rw [hinst name argument hl v hv]
    rfl

end TypeRef

/-! ## Methods -/

namespace MethodDecl

/-- The method's parameters with the variables that they become. -/
def bindings (d : MethodDecl) (m : TraitMethod) : List (String × TypeVar) :=
  (d.typeParams.map (·.name)).zip (m.typeParams.map (·.var))

/-- Each type of the second method is what the declared type becomes when it is inherited. The last
parameter may be marked as varargs on top of that. -/
structure InheritedAs (d : MethodDecl) (inst : Instantiation) (q : String) (m : TraitMethod) :
    Prop where
  typeParams : List.Forall₂ (fun p p' => ∃ p₀, p.resolve = .ok p₀ ∧
    List.Forall₂ (TypeRef.InheritedAs (d.bindings m) inst q) p₀.upper p'.upper)
    d.typeParams m.typeParams
  params : List.Forall₂ (fun p p' => ∃ t t', p.type.resolve = .ok t
    ∧ t.InheritedAs (d.bindings m) inst q t'
    ∧ (p'.type = t' ∨ d.varargs = true ∧ p'.type = t'.markVarargs)) d.params m.params
  throws : List.Forall₂ (fun t t' => ∃ t₀, t.resolve = .ok t₀
    ∧ t₀.InheritedAs (d.bindings m) inst q t') d.throws m.throws
  returns : ∃ t, d.returns.resolve = .ok t ∧ t.InheritedAs (d.bindings m) inst q m.returns

theorem Resolves.bindings_eq {d : MethodDecl} {q : String} {inst : Instantiation} {m : TraitMethod}
    (h : d.Resolves q inst m) : d.bindings m = TypeVar.bindings (d.typeParams.map (·.name)) q := by
  unfold bindings TypeVar.bindings
  rw [map_var_of_resolveIn h.typeParams]
  exact List.map_prod_left_eq_zip.symm

theorem Resolves.ne_wildcardName {d : MethodDecl} {q : String} {inst : Instantiation}
    {m : TraitMethod} (h : d.Resolves q inst m) :
    ∀ name ∈ d.typeParams.map (·.name), name ≠ TypeVar.wildcardName := by
  intro name hname
  obtain ⟨p, hp, rfl⟩ := List.mem_map.mp hname
  obtain ⟨p', -, hres⟩ := exists_rel_of_mem h.typeParams.flip hp
  obtain ⟨_, -, hne, -⟩ := TypeParamDecl.resolveIn_eq_ok_iff.mp hres
  exact hne

/-- **With names that are apart, a method is inherited as it is meant.** -/
theorem Resolves.inheritedAs {d : MethodDecl} {q : String} {inst : Instantiation} {m : TraitMethod}
    (h : d.Resolves q inst m)
    (hinst : ∀ name argument, inst.lookup name = some argument →
      ∀ v ∈ argument.vars, v.qualifier.isSome)
    (hapart : inst.Apart (d.typeParams.map (·.name))) : d.InheritedAs inst q m := by
  have hall : ∀ t : TypeRef,
      t.InheritedAs (d.bindings m) inst q ((t.instantiate inst).qualify q) := by
    rw [h.bindings_eq]
    exact TypeRef.inheritedAs_of_apart h.ne_wildcardName hinst hapart
  have htype : ∀ {t : SourceType} {t' : TypeRef}, t.resolveIn q inst = .ok t' →
      ∃ t₀, t.resolve = .ok t₀ ∧ t₀.InheritedAs (d.bindings m) inst q t' := by
    intro t t' ht
    obtain ⟨t₀, ht₀, rfl⟩ := SourceType.resolveIn_eq_ok_iff.mp ht
    exact ⟨t₀, ht₀, hall t₀⟩
  refine ⟨h.typeParams.imp fun p p' hp => ?_, h.params.imp fun p p' hp => ?_,
    h.throws.imp fun t t' ht => htype ht, htype h.returns⟩
  · obtain ⟨p₀, hp₀, -, rfl⟩ := TypeParamDecl.resolveIn_eq_ok_iff.mp hp
    refine ⟨p₀, hp₀, ?_⟩
    rw [List.forall₂_map_right_iff, List.forall₂_same]
    exact fun b _ => hall b
  · obtain ⟨t', ht', he⟩ := hp
    obtain ⟨t, ht, hres⟩ := htype ht'
    exact ⟨t, t', ht, hres, he⟩

end MethodDecl

/-! ## Interfaces -/

/-- The method's parameters are called neither like those of the interface nor like a variable in
an argument for one of them. -/
structure InterfaceDecl.ApartFrom (i : InterfaceDecl) (d : MethodDecl) : Prop where
  params : ∀ p ∈ d.typeParams, p.name ∉ i.typeParams
  args : ∀ p ∈ d.typeParams, ∀ a ∈ i.args, p.name ∉ a.varNames

namespace InterfaceDecl.Resolves

variable {i : InterfaceDecl} {q : String} {ti : TraitInterface} {ms : List TraitMethod}

/-- What is put for a parameter has only variables that an argument is spelled with, under the
trait's qualifier. -/
theorem exists_of_mem_vars (h : i.Resolves q ti ms) {name : String} {argument : TypeRef}
    (hl : ti.instantiation.lookup name = some argument) {v : TypeVar} (hv : v ∈ argument.vars) :
    v.qualifier = some q ∧ ∃ a ∈ i.args, v.name ∈ a.varNames := by
  rcases h.eq_root_or_mem_args hl with rfl | hmem
  · exact absurd hv List.not_mem_nil
  · obtain ⟨a, ha, hres⟩ := exists_rel_of_mem h.args hmem
    have hvars := (Instantiation.MapsInto.nil q a.varNames).vars_subset_of_resolveIn hres
      (List.Subset.refl _)
    obtain ⟨name', hname', rfl⟩ := List.mem_map.mp (hvars hv)
    exact ⟨rfl, a, ha, hname'⟩

theorem apart (h : i.Resolves q ti ms) {d : MethodDecl} (hapart : i.ApartFrom d) :
    ti.instantiation.Apart (d.typeParams.map (·.name)) where
  unlisted := by
    intro name hname
    obtain ⟨p, hp, rfl⟩ := List.mem_map.mp hname
    rw [lookup_eq_none_iff, h.map_fst_instantiation]
    exact hapart.params p hp
  unused := by
    intro name argument hl v hv hname
    obtain ⟨p, hp, he⟩ := List.mem_map.mp hname
    obtain ⟨-, a, ha, hmem⟩ := h.exists_of_mem_vars hl hv
    exact hapart.args p hp a ha (he ▸ hmem)

end InterfaceDecl.Resolves

/-! ## Traits -/

/-- A trait declared like this has its methods from interfaces as they are meant, as long as it
gives each interface all its arguments. -/
def TraitDecl.InheritsAsMeant (d : TraitDecl) : Prop :=
  ∀ (c : Config) (t : Trait) (diagnostics : List Diagnostic), d.resolve c = .ok (t, diagnostics) →
    ∀ i ∈ d.interfaces, i.args.length = i.typeParams.length →
      ∀ ti ms, i.resolveIn t.qualifier = .ok (ti, ms) →
        List.Forall₂ (fun decl m => decl.InheritedAs ti.instantiation t.qualifier m)
          (i.methods.filter (!·.isOwn)) ms

/--
**A method is inherited as it is meant if its names are apart.** This is about every method that a
trait has from an interface; what the interface's parameters become are the trait's arguments in
their order.
-/
theorem TraitDecl.inheritedAs_of_apartFrom {d : TraitDecl} {c : Config} {t : Trait}
    {diagnostics : List Diagnostic} (hr : d.resolve c = .ok (t, diagnostics)) :
    (∀ m ∈ t.methods, m.isInherited → ∃ i ∈ d.interfaces, ∃ ti ms,
        i.resolveIn t.qualifier = .ok (ti, ms) ∧ m ∈ ms)
      ∧ ∀ i ∈ d.interfaces, ∀ ti ms, i.resolveIn t.qualifier = .ok (ti, ms) →
          List.Forall₂ (fun a r => a.resolveIn t.qualifier [] = .ok r) i.args ti.type.args
          ∧ (i.args.length = i.typeParams.length →
              ti.instantiation = i.typeParams.zip ti.type.args)
          ∧ List.Forall₂ (fun decl m => i.ApartFrom decl →
              decl.InheritedAs ti.instantiation t.qualifier m)
            (i.methods.filter (!·.isOwn)) ms := by
  refine ⟨fun m hm hinherited => ?_, fun i _ ti ms hi => ?_⟩
  · rcases (resolves_of_resolve hr).parts.methods m hm with ⟨_, -, -, hnone⟩ | hfrom
    · rw [TraitMethod.isInherited, hnone] at hinherited
      cases hinherited
    · exact hfrom
  · have hres := InterfaceDecl.resolves_of_resolveIn hi
    refine ⟨hres.args, fun hlength => ?_, hres.methods.imp fun decl m hm hapart => ?_⟩
    · rw [hres.instantiation]
      unfold InterfaceDecl.instantiation
      split
      · next he =>
        have hnil := List.isEmpty_iff.mp he
        rw [hres.args.length_eq, hnil] at hlength
        rw [hnil, List.eq_nil_of_length_eq_zero hlength.symm]
        rfl
      · rfl
    · refine hm.1.inheritedAs (fun name argument hl v hv => ?_) (hres.apart hapart)
      rw [(hres.exists_of_mem_vars hl hv).1]
      rfl

/-! ## A box -/

/-- A method of an interface with one parameter, and with a type parameter of its own. -/
def MethodDecl.pick (own : String) : MethodDecl :=
  { name := "pick", modifiers := [.public, .abstract], typeParams := [⟨own, []⟩]
    returns := .typeVariable own none none
    params := [⟨"first", .typeVariable "T" none none⟩], varargs := false, throws := []
    selfAccessor := false }

/-- A trait that has the method from an interface with the parameter T. -/
def TraitDecl.picking (params : List String) (argument : SourceType) (own : String) : TraitDecl :=
  { name := "lib.Box"
    typeParams := params.map (⟨·, []⟩)
    superclass := none
    interfaces := [⟨"lib.Source", ["T"], [argument], [.pick own]⟩]
    members := [] }

/-- The delegate of a trait as it is written. -/
def TraitDecl.delegateText? (d : TraitDecl) : Option String :=
  (d.resolve .bare).toOption.bind fun r => (r.1.delegateFile .bare).render.toOption

/-- The method's parameter has a name of its own, so it stays apart from the argument. -/
theorem TraitDecl.inheritedAs_of_apartFrom_picking :
    ∃ (t : Trait) (ti : TraitInterface) (m : TraitMethod),
      (picking ["U"] (.typeVariable "U" none none) "R").resolve .bare = .ok (t, [])
      ∧ t.methods = [m] ∧ m.isInherited
      ∧ ti.instantiation = [("T", .param ⟨"U", some t.qualifier⟩ [] none .scalar)]
      ∧ (MethodDecl.pick "R").InheritedAs ti.instantiation t.qualifier m := by
  have hresolve : ((picking ["U"] (.typeVariable "U" none none) "R").resolve .bare).toOption.map
      (fun r => (r.1.methods.map (·.isInherited), r.2)) = some ([true], []) := by
    decide +kernel
  obtain ⟨⟨t, _⟩, hr, he⟩ := Option.map_eq_some_iff.mp hresolve
  obtain ⟨hmethods, rfl⟩ := Prod.mk.inj he
  have hr := toOption_eq_some_iff.mp hr
  obtain ⟨m, hm, hinherited⟩ := List.map_eq_singleton_iff.mp hmethods
  obtain ⟨hfrom, hall⟩ := inheritedAs_of_apartFrom hr
  obtain ⟨i, hi, ti, ms, hres, hmem⟩ := hfrom m (hm ▸ List.mem_cons_self) hinherited
  obtain ⟨hargs, hzip, hms⟩ := hall i hi ti ms hres
  cases List.mem_singleton.mp hi
  obtain ⟨r, rest, hr', hrest, hargs⟩ := List.forall₂_cons_left_iff.mp hargs
  cases List.forall₂_nil_left_iff.mp hrest
  obtain ⟨r₀, hr₀, rfl⟩ := SourceType.resolveIn_eq_ok_iff.mp hr'
  cases Except.ok.inj hr₀
  obtain ⟨decl, hdecl, himp⟩ := exists_rel_of_mem hms hmem
  cases List.mem_singleton.mp hdecl
  refine ⟨t, ti, m, hr, hm, hinherited, ?_, himp ⟨by decide, by decide⟩⟩
  rw [hzip rfl, hargs]
  rfl

/--
Both ways of not being apart go wrong. A parameter of the method called like the one of the
interface is declared and never used, since its uses became the argument; one called like a variable
in the argument makes a method that is generic in what it was to take from the trait.
-/
theorem TraitDecl.not_forall_inheritsAsMeant :
    (¬∀ d : TraitDecl, d.InheritsAsMeant)
      ∧ (picking [] (.declared "java.lang.String" []) "T").delegateText? =
        some (String.join
          ["package lib;\n\n",
            "public class BoxDelegate extends Box \x7b\n",
            "    private final BoxTrait target;\n\n",
            "    public BoxDelegate(BoxTrait target) \x7b\n",
            "        this.target = target;\n",
            "    \x7d\n\n",
            "    @Override\n",
            "    public <Box_T> String pick(String first) \x7b\n",
            "        return this.target.pick(first);\n",
            "    \x7d\n",
            "\x7d\n"])
      ∧ (picking ["U"] (.typeVariable "U" none none) "U").delegateText? =
        some (String.join
          ["package lib;\n\n",
            "public class BoxDelegate<Box_U> extends Box<Box_U> \x7b\n",
            "    private final BoxTrait<Box_U> target;\n\n",
            "    public BoxDelegate(BoxTrait<Box_U> target) \x7b\n",
            "        this.target = target;\n",
            "    \x7d\n\n",
            "    @Override\n",
            "    public <Box_U> Box_U pick(Box_U first) \x7b\n",
            "        return this.target.pick(first);\n",
            "    \x7d\n",
            "\x7d\n"]) := by
  refine ⟨fun hall => ?_, by decide +kernel, by decide +kernel⟩
  -- the trait puts a text for T, and the method's own T becomes that text
  have hresolve : ((picking [] (.declared "java.lang.String" []) "T").resolve .bare).toOption.map
      (·.1.qualifier) = some "Box" := by
    decide +kernel
  have hreturns : ((InterfaceDecl.mk "lib.Source" ["T"] [.declared "java.lang.String" []]
      [.pick "T"]).resolveIn "Box").toOption.map (fun r => r.2.map (·.returns)) =
        some [.plain ⟨"java.lang", "String"⟩] := by
    decide +kernel
  obtain ⟨⟨t, ds⟩, hr, hq⟩ := Option.map_eq_some_iff.mp hresolve
  obtain ⟨⟨ti, ms⟩, hi, hms⟩ := Option.map_eq_some_iff.mp hreturns
  obtain ⟨m, rfl, hm⟩ := List.map_eq_singleton_iff.mp hms
  have hi := toOption_eq_some_iff.mp hi
  have hq : t.qualifier = "Box" := hq
  have hmeant := hall _ _ t ds (toOption_eq_some_iff.mp hr) _ List.mem_cons_self rfl ti [m]
    (hq.symm ▸ hi)
  have hmeant : (MethodDecl.pick "T").InheritedAs ti.instantiation t.qualifier m :=
    (List.forall₂_cons.mp hmeant).1
  obtain ⟨p', rest, -, -, hparams⟩ := List.forall₂_cons_left_iff.mp hmeant.typeParams
  obtain ⟨t₀, ht₀, hinherited⟩ := hmeant.returns
  cases Except.ok.inj ht₀
  have hown : ((MethodDecl.pick "T").bindings m).lookup "T" = some p'.var := by
    unfold MethodDecl.bindings
    rw [hparams]
    rfl
  have heq := hinherited.eq
  rw [TypeRef.inherit_own hown, hm] at heq
  cases heq

end TraitWeaver
