import TraitWeaver.Proofs.EveryDims
import TraitWeaver.Proofs.MethodList
import TraitWeaver.Proofs.Requalifying
import TraitWeaver.Proofs.SpelledTypes

/-!
# Where a trait has varargs

A varargs marker is written as dots in place of the last brackets. That is right at the
end of a parameter list and nowhere else: dots in a type argument, in a return type or on
a parameter before the last one would not compile.

Two facts keep the marker in its place. Nothing that has been spelled is marked, so
neither is anything in the terms of a trait: what comes from an interface has arguments
of the trait put in, and those have been spelled, too. And the marker is set at the very
end, on the outside of a type, when nothing is put into the type any more. A type
that has become an array by what was put in keeps its brackets below the dots.
-/

namespace TraitWeaver

/-! ## Types in the terms of a trait -/

theorem SourceType.unmarked_of_resolvesTo {s : SourceType} {r : TypeRef} (h : s.ResolvesTo r) :
    r.EveryDims Dims.Unmarked := by
  intro u hu
  obtain ⟨s', hs⟩ := (denotes_of_resolvesTo h).exists_of_mem_nodes hu
  exact hs.varargs_eq_false

/-- **No type in the terms of a trait is marked**, as long as no type is that is put for parameters
of interfaces. -/
theorem TypeRef.holdsIn_unmarked (q : String) : HoldsIn q (·.EveryDims Dims.Unmarked) where
  root := everyDims_declared_iff.mpr ⟨Dims.unmarked_scalar, fun _ ht => absurd ht List.not_mem_nil⟩
  spelled hres hinst := by
    rw [qualify_eq_mapVars, everyDims_mapVars_iff, instantiate_eq_rewrite]
    refine (SourceType.unmarked_of_resolvesTo hres).rewrite (fun _ _ ho hi => ho.around hi)
      fun p r hr => ?_
    unfold Instantiation.value? at hr
    split at hr
    · cases hr
    · exact hinst _ (mem_of_lookup_eq_some hr)
  param _ hupper := everyDims_param_iff.mpr ⟨Dims.unmarked_scalar, hupper, by simp⟩

/-! ## Marked types -/

/-- The type is marked if this is so, and then on the outside of an array. -/
structure TypeRef.MarkedIff (marked : Prop) (t : TypeRef) : Prop where
  varargs_iff : t.dims.varargs = true ↔ marked
  inner : t.InnerDims Dims.Unmarked
  fit : t.dims.Fit

namespace TypeRef

variable {marked : Prop} {t : TypeRef}

theorem markedIff_of_unmarked (h : t.EveryDims Dims.Unmarked) (hnot : ¬marked) :
    t.MarkedIff marked := by
  obtain ⟨hdims, hinner⟩ := everyDims_iff.mp h
  refine ⟨iff_of_false ?_ hnot, hinner, hdims.fit⟩
  rw [show t.dims.varargs = false from hdims]
  exact Bool.false_ne_true

theorem markedIff_markVarargs (h : t.EveryDims Dims.Unmarked) (hmarked : marked) :
    t.markVarargs.MarkedIff marked := by
  obtain ⟨-, hinner⟩ := everyDims_iff.mp h
  refine ⟨iff_of_true ?_ hmarked, innerDims_withDims.mpr hinner, ?_⟩
  · rw [markVarargs, dims_withDims]
    rfl
  · rw [markVarargs, dims_withDims]
    exact t.dims.fit_markVarargs

theorem MarkedIff.mapVars (h : t.MarkedIff marked) (f : TypeVar → TypeVar) :
    (t.mapVars f).MarkedIff marked := by
  refine ⟨?_, innerDims_mapVars_iff.mpr h.inner, ?_⟩
  · rw [dims_mapVars]
    exact h.varargs_iff
  · rw [dims_mapVars]
    exact h.fit

end TypeRef

/-! ## Methods -/

/-- Of the types in the method, that of the last parameter is marked if the method has varargs, and
no other one. -/
structure TraitMethod.MarksLast (varargs : Bool) (m : TraitMethod) : Prop where
  typeParams : ∀ p ∈ m.typeParams, p.toRef.EveryDims Dims.Unmarked
  returns : m.returns.EveryDims Dims.Unmarked
  params : ∀ (i : Nat) (p : Parameter), m.params[i]? = some p →
    p.type.MarkedIff (varargs = true ∧ i + 1 = m.params.length)
  throws : ∀ r ∈ m.throws, r.EveryDims Dims.Unmarked

/-- **A method marks its last parameter**, whatever has been put into the type of it. -/
theorem MethodDecl.marksLast_of_resolveIn {d : MethodDecl} {q : String} {inst : Instantiation}
    {m : TraitMethod} (hinst : ∀ e ∈ inst, e.2.EveryDims Dims.Unmarked)
    (h : d.resolveIn q inst = .ok m) : m.MarksLast d.varargs := by
  obtain ⟨hres, -⟩ := resolves_of_resolveIn h
  obtain ⟨htypeParams, hreturns, -, hthrows⟩ := hres.holds (TypeRef.holdsIn_unmarked q) hinst
  refine ⟨htypeParams, hreturns, fun i p hp => ?_, hthrows⟩
  have hall := forall₂_zipIdx_of_resolveParameters (resolveParameters_of_resolveIn h)
  have hlength : d.params.length = m.params.length := by
    rw [← hall.length_eq, List.length_zipIdx]
  obtain ⟨⟨decl, j⟩, hdecl, type, htype, he⟩ := exists_rel_of_getElem? hall hp
  obtain rfl : i = j := by
    rw [List.getElem?_zipIdx, Nat.zero_add] at hdecl
    obtain ⟨_, -, hpair⟩ := Option.map_eq_some_iff.mp hdecl
    exact congrArg Prod.snd hpair
  have hunmarked := SourceType.holds_of_resolveIn (TypeRef.holdsIn_unmarked q) hinst htype
  rw [he, hlength]
  by_cases hlast : d.varargs = true ∧ i + 1 = m.params.length
  · rw [if_pos (by simpa using hlast)]
    exact TypeRef.markedIff_markVarargs hunmarked hlast
  · rw [if_neg (by simpa using hlast)]
    exact TypeRef.markedIff_of_unmarked hunmarked hlast

/-- The method of the trait is made of this declaration. It is one of the trait, or one of an
interface, and then the trait's types are put for the interface's parameters. -/
def TraitDecl.Provides (d : TraitDecl) (q : String) (decl : MethodDecl) (m : TraitMethod) : Prop :=
  (.method decl ∈ d.members ∧ decl.resolveIn q [] = .ok { m with kind := .abstract })
    ∨ ∃ i ∈ d.interfaces, ∃ (ti : TraitInterface) (ms : List TraitMethod),
      i.resolveIn q = .ok (ti, ms) ∧ m ∈ ms ∧ decl ∈ i.methods
        ∧ decl.resolveIn q ti.instantiation = .ok { m with kind := .abstract, inheritedFrom := none }

theorem TraitDecl.Provides.marksLast {d : TraitDecl} {q : String} {decl : MethodDecl}
    {m : TraitMethod} (h : d.Provides q decl m) : m.MarksLast decl.varargs := by
  rcases h with ⟨-, hres⟩ | ⟨i, -, ti, ms, hi, -, -, hres⟩
  · obtain ⟨htypeParams, hreturns, hparams, hthrows⟩ :=
      MethodDecl.marksLast_of_resolveIn (fun _ he => absurd he List.not_mem_nil) hres
    exact ⟨htypeParams, hreturns, hparams, hthrows⟩
  · have hinst := (InterfaceDecl.resolves_of_resolveIn hi).holds_instantiation
      (TypeRef.holdsIn_unmarked q)
    obtain ⟨htypeParams, hreturns, hparams, hthrows⟩ :=
      MethodDecl.marksLast_of_resolveIn hinst hres
    exact ⟨htypeParams, hreturns, hparams, hthrows⟩

/-- **Every method of a resolved trait is made of a declaration.** -/
theorem TraitDecl.exists_provides_of_resolve {d : TraitDecl} {config : Config} {t : Trait}
    {ds : List Diagnostic} (h : d.resolve config = .ok (t, ds)) :
    ∀ m ∈ t.methods, ∃ decl, d.Provides t.qualifier decl m := by
  obtain ⟨name, typeParams, -, -, rfl⟩ := exists_of_resolve h
  obtain ⟨declared, hdeclared, hmethods, -⟩ :=
    (d.context config name).exists_declared d.members .empty
  obtain ⟨inherited, hinherited, hall, -⟩ :=
    (d.context config name).exists_inherited d.interfaces
      (d.members.foldl (d.context config name).addMember .empty)
  rw [hmethods] at hall
  intro m hm
  have hm : m ∈ declared ++ inherited := hall ▸ hm
  rcases List.mem_append.mp hm with hm | hm
  · obtain ⟨decl, hdecl, hres⟩ := exists_rel_of_mem hdeclared hm
    obtain ⟨member, hmember, hcomposable⟩ := List.mem_filterMap.mp hdecl
    rw [(MemberDecl.composable?_eq_some_iff.mp hcomposable).1] at hmember
    exact ⟨decl, Or.inl ⟨hmember, hres⟩⟩
  · obtain ⟨⟨ti, ms⟩, hi, hm⟩ := List.mem_flatMap.mp (hinherited.sublist.subset hm)
    obtain ⟨i, hmem, hi⟩ := List.mem_filterMap.mp hi
    have hi := toOption_eq_some_iff.mp hi
    obtain ⟨-, -, -, hms⟩ := InterfaceDecl.exists_of_resolveIn hi
    obtain ⟨decl, hdecl, hres, -⟩ := exists_rel_of_mem hms hm
    exact ⟨decl, Or.inr ⟨i, hmem, ti, ms, hi, hm, List.mem_of_mem_filter hdecl, hres⟩⟩

/-! ## Traits -/

/-- Of all types in the trait, those of last parameters are marked where the method has varargs, and
no others. The methods are made of these declarations. -/
structure Trait.MarksLast (decls : List MethodDecl) (t : Trait) : Prop where
  args : ∀ r ∈ t.type.args, r.EveryDims Dims.Unmarked
  typeParams : ∀ p ∈ t.typeParams, p.toRef.EveryDims Dims.Unmarked
  methods : List.Forall₂ (fun decl m => m.MarksLast decl.varargs) decls t.methods
  constants : ∀ k ∈ t.constants, k.type.EveryDims Dims.Unmarked
  interfaceArgs : ∀ i ∈ t.interfaces, ∀ r ∈ i.type.args, r.EveryDims Dims.Unmarked
  instantiations : ∀ i ∈ t.interfaces, ∀ e ∈ i.instantiation, e.2.EveryDims Dims.Unmarked

theorem TraitDecl.Resolves.marksLast {d : TraitDecl} {t : Trait} {decls : List MethodDecl}
    (h : d.Resolves t) (hdecls : List.Forall₂ (d.Provides t.qualifier) decls t.methods) :
    t.MarksLast decls where
  args := (h.holds (TypeRef.holdsIn_unmarked _)).args
  typeParams := (h.holds (TypeRef.holdsIn_unmarked _)).typeParams
  methods := hdecls.imp fun _ _ hprovides => hprovides.marksLast
  constants k hk := by
    obtain ⟨f, -, -, -, -, hres⟩ := h.parts.constants k hk
    exact SourceType.unmarked_of_resolvesTo hres
  interfaceArgs := (h.holds (TypeRef.holdsIn_unmarked _)).interfaceArgs
  instantiations := (h.holds (TypeRef.holdsIn_unmarked _)).instantiations

theorem TraitMethod.MarksLast.mapVars {varargs : Bool} {m : TraitMethod} (h : m.MarksLast varargs)
    (f : TypeVar → TypeVar) : (m.mapVars f).MarksLast varargs := by
  refine ⟨?_, TypeRef.everyDims_mapVars_iff.mpr h.returns, fun i p hp => ?_, ?_⟩
  · refine List.forall_mem_map.mpr fun p hp => ?_
    rw [TypeParam.toRef_mapVars, TypeRef.everyDims_mapVars_iff]
    exact h.typeParams p hp
  · have hp : (m.params.map fun p => (⟨p.type.mapVars f, p.name⟩ : Parameter))[i]? = some p := hp
    rw [List.getElem?_map] at hp
    obtain ⟨p', hp', rfl⟩ := Option.map_eq_some_iff.mp hp
    show (p'.type.mapVars f).MarkedIff (varargs = true ∧ i + 1 = (m.params.map _).length)
    rw [List.length_map]
    exact (h.params i p' hp').mapVars f
  · exact List.forall_mem_map.mpr fun r hr => TypeRef.everyDims_mapVars_iff.mpr (h.throws r hr)

namespace Trait

variable {decls : List MethodDecl} {t : Trait}

theorem MarksLast.mapVars (h : t.MarksLast decls) (f : TypeVar → TypeVar) :
    (t.mapVars f).MarksLast decls where
  args := List.forall_mem_map.mpr fun r hr => TypeRef.everyDims_mapVars_iff.mpr (h.args r hr)
  typeParams := by
    refine List.forall_mem_map.mpr fun p hp => ?_
    rw [TypeParam.toRef_mapVars, TypeRef.everyDims_mapVars_iff]
    exact h.typeParams p hp
  methods := List.forall₂_map_right_iff.mpr (h.methods.imp fun _ _ hm => hm.mapVars f)
  constants := List.forall_mem_map.mpr fun k hk =>
    TypeRef.everyDims_mapVars_iff.mpr (h.constants k hk)
  interfaceArgs := List.forall_mem_map.mpr fun i hi => List.forall_mem_map.mpr fun r hr =>
    TypeRef.everyDims_mapVars_iff.mpr (h.interfaceArgs i hi r hr)
  instantiations := List.forall_mem_map.mpr fun i hi => List.forall_mem_map.mpr fun e he =>
    TypeRef.everyDims_mapVars_iff.mpr (h.instantiations i hi e he)

/-- **Moving a trait leaves the markers where they are.** -/
theorem MarksLast.requalify (h : t.MarksLast decls) (q : String) :
    (t.requalify q).MarksLast decls := by
  obtain ⟨hargs, htypeParams, hmethods, hconstants, hinterfaceArgs, hinstantiations⟩ :=
    h.mapVars (.requalify t.qualifier q)
  rw [requalify_eq_mapVars]
  exact ⟨hargs, htypeParams, hmethods, hconstants, hinterfaceArgs, hinstantiations⟩

/-- So does moving it any number of times. -/
theorem MarksLast.foldl_requalify (h : t.MarksLast decls) (qs : List String) :
    (qs.foldl Trait.requalify t).MarksLast decls :=
  List.foldlRecOn qs Trait.requalify h fun _ hu q _ => hu.requalify q

end Trait

/-- **A varargs marker is on an array**, at every node of whatever is built. **In a resolved trait it
is on the last parameter** of each method that is declared with varargs, of inherited ones, too, and
on nothing else, however often the trait is moved to another qualifier. -/
theorem TraitDecl.varargs_in_place :
    (∀ t : TypeRef, t.Built → t.EveryDims Dims.Fit) ∧
      ∀ (d : TraitDecl) (config : Config) (t : Trait) (ds : List Diagnostic),
        d.resolve config = .ok (t, ds) →
        (∃ decls, List.Forall₂ (d.Provides t.qualifier) decls t.methods)
          ∧ ∀ decls, List.Forall₂ (d.Provides t.qualifier) decls t.methods →
            ∀ qs : List String, (qs.foldl Trait.requalify t).MarksLast decls := by
  refine ⟨fun t ht => ht.everyDims, fun d config t ds h => ⟨?_, fun decls hdecls => ?_⟩⟩
  · have hmethods : ∀ m ∈ t.methods, ∃ decl, d.Provides t.qualifier decl m :=
      exists_provides_of_resolve h
    obtain ⟨decls, hdecls⟩ := exists_forall₂_iff.mpr hmethods
    exact ⟨decls, hdecls.flip⟩
  · exact ((resolves_of_resolve h).marksLast hdecls).foldl_requalify

/-- A trait that puts an array for the parameter of an interface, of which a method with varargs takes
any number. -/
def TraitDecl.bin : TraitDecl :=
  let element (name : String) : SourceType := .array (.typeVariable name none none)
  { name := "lib.Bin"
    typeParams := [⟨"E", []⟩]
    superclass := none
    interfaces :=
      [⟨"lib.Sink", ["T"], [element "E"],
          [⟨"put", [.public, .abstract], [], .void,
            [⟨"label", .declared "java.lang.String" []⟩, ⟨"items", element "T"⟩], true, [], false⟩]⟩]
    members :=
      [.method ⟨"fill", [.public], [], element "E",
        [⟨"first", element "E"⟩, ⟨"rest", element "E"⟩], true, [], false⟩] }

theorem TraitDecl.varargs_in_place_bin :
    (∃ u : TypeRef, u.Built ∧ u.text = "int[]..." ∧ u.EveryDims Dims.Fit)
      ∧ ∃ t ds decls, bin.resolve .bare = .ok (t, ds)
        ∧ List.Forall₂ (bin.Provides t.qualifier) decls t.methods
        ∧ (["Box", "Crate"].foldl Trait.requalify t).MarksLast decls
        ∧ (["Box", "Crate"].foldl Trait.requalify t).methods.map
            (fun m => (m.returns.text, m.name, m.params.map (·.type.text))) =
          [("Crate_E[]", "fill", ["Crate_E[]", "Crate_E..."]),
            ("void", "put", ["java.lang.String", "Crate_E[]..."])] := by
  obtain ⟨hbuilt, hresolved⟩ := varargs_in_place
  refine ⟨?_, ?_⟩
  · -- an array of numbers is put for the parameter of `T...`
    let ints : TypeRef := .declared ⟨"", "int"⟩ [] ⟨1, false⟩
    let f : TypeRef.Rewriter Empty Unit := fun _ => pure (some ints)
    have hparam : TypeRef.Built (.param (.plain "T") [] none .scalar) :=
      .param _ (fun _ hb => absurd hb List.not_mem_nil) (by simp)
    have hbuiltInts : TypeRef.Built (ints.under ⟨1, true⟩) := by
      refine .rewritten (f := f) (s := ()) hparam.markVarargs rfl fun call hcall r hr => ?_
      obtain rfl := List.mem_singleton.mp hcall
      obtain rfl : ints = r := Option.some.inj (Except.ok.inj hr)
      exact TypeRef.everyDims_declared_iff.mpr
        ⟨Dims.Unmarked.fit rfl, fun _ ha => absurd ha List.not_mem_nil⟩
    exact ⟨_, hbuiltInts, by decide +kernel, hbuilt _ hbuiltInts⟩
  · have hresolve : (bin.resolve .bare).toOption.map (fun r =>
        (["Box", "Crate"].foldl Trait.requalify r.1).methods.map
          fun m => (m.returns.text, m.name, m.params.map (·.type.text))) =
        some [("Crate_E[]", "fill", ["Crate_E[]", "Crate_E..."]),
          ("void", "put", ["java.lang.String", "Crate_E[]..."])] := by
      decide +kernel
    obtain ⟨⟨t, ds⟩, hr, htexts⟩ := Option.map_eq_some_iff.mp hresolve
    have hr := toOption_eq_some_iff.mp hr
    obtain ⟨⟨decls, hdecls⟩, hmarks⟩ := hresolved bin .bare t ds hr
    exact ⟨t, ds, decls, hr, hdecls, hmarks decls hdecls ["Box", "Crate"], htexts⟩

end TraitWeaver
