import Mathlib.Data.List.Forall2
import TraitWeaver.Proofs.Outcome
import TraitWeaver.Proofs.SortedMap
import TraitWeaver.Trait.Resolve

/-!
# Types, methods and interfaces in the terms of a trait

What a declaration says of a type or of a method is put into the terms of the trait that
has it: the parameters of an interface are replaced by what the trait puts for them, and
every other variable gets the trait's qualifier. This module says of each of them what
resolving makes of it, part by part:

* a **parameter** is the declared one, under the trait's qualifier and with its
  bounds in the trait's terms;
* a **method** has its types and parameters resolved one by one;
* an **interface** has arguments for all of its parameters or for none, and its
  methods are resolved with these put for the parameters.
-/

namespace TraitWeaver

/-! ## Types and type parameters -/

theorem SourceType.resolveIn_eq_ok_iff {t : SourceType} {q : String} {inst : Instantiation}
    {r : TypeRef} :
    t.resolveIn q inst = .ok r ↔
      ∃ r₀, t.resolve = .ok r₀ ∧ r = (r₀.instantiate inst).qualify q := by
  unfold resolveIn
  rw [bind_eq_ok]
  exact exists_congr (fun r₀ => and_congr_right (fun _ => pure_eq_ok.trans eq_comm))

/-- A parameter without qualifier takes one, unless it is a wildcard. -/
theorem TypeParam.qualify_eq_ok_iff {name q : String} {upper : List TypeRef} {p : TypeParam} :
    TypeParam.qualify ⟨.plain name, upper, none⟩ q = .ok p ↔
      name ≠ TypeVar.wildcardName ∧ p = ⟨⟨name, some q⟩, upper, none⟩ := by
  unfold qualify isWildcard TypeVar.isWildcard TypeVar.plain
  by_cases hw : name = TypeVar.wildcardName
  · rw [if_pos (decide_eq_true hw)]
    refine ⟨fun h => ?_, fun h => absurd hw h.1⟩
    cases h
  · rw [if_neg (fun h => hw (of_decide_eq_true h))]
    exact ⟨fun h => ⟨hw, (Except.ok.inj h).symm⟩, fun h => congrArg Except.ok h.2.symm⟩

namespace TypeParamDecl

theorem resolve_eq_ok_iff {d : TypeParamDecl} {p : TypeParam} :
    d.resolve = .ok p ↔ d.name ≠ "" ∧ ∃ bounds,
      List.Forall₂ (fun b us => SourceType.resolveUpper (some b) = .ok us) d.bounds bounds
        ∧ p = ⟨.plain d.name, bounds.flatten, none⟩ := by
  unfold resolve
  by_cases hn : d.name = ""
  · rw [if_pos hn]
    refine ⟨fun h => ?_, fun h => absurd hn h.1⟩
    cases h
  · rw [if_neg hn]
    show (d.bounds.mapM (fun bound => SourceType.resolveUpper (some bound)) >>= fun bounds =>
      (pure ⟨.plain d.name, bounds.flatten, none⟩ : Except TypeError TypeParam)) = .ok p ↔ _
    rw [bind_eq_ok]
    simp only [mapM_eq_ok_iff, pure_eq_ok, ne_eq, hn, not_false_eq_true, true_and]
    exact exists_congr (fun bounds => and_congr_right (fun _ => eq_comm))

/-- **In a trait, a parameter keeps its name and carries the trait's qualifier.** -/
theorem resolveIn_eq_ok_iff {d : TypeParamDecl} {q : String} {inst : Instantiation}
    {p : TypeParam} :
    d.resolveIn q inst = .ok p ↔ ∃ p₀, d.resolve = .ok p₀ ∧ d.name ≠ TypeVar.wildcardName
      ∧ p = ⟨⟨d.name, some q⟩, p₀.upper.map fun b => (b.instantiate inst).qualify q, none⟩ := by
  unfold resolveIn
  rw [bind_eq_ok]
  refine exists_congr (fun p₀ => and_congr_right (fun hp₀ => ?_))
  obtain ⟨-, bounds, -, rfl⟩ := resolve_eq_ok_iff.mp hp₀
  exact TypeParam.qualify_eq_ok_iff

end TypeParamDecl

/-! ## Methods -/

/-- A method without parameters. -/
def MethodDecl.plain (name : String) (modifiers : List Modifier) (returns : SourceType) :
    MethodDecl :=
  ⟨name, modifiers, [], returns, [], false, [], false⟩

/-- The method of a trait that a declaration stands for, whatever its kind and origin. -/
structure MethodDecl.Resolves (d : MethodDecl) (q : String) (inst : Instantiation)
    (m : TraitMethod) : Prop where
  typeParams : List.Forall₂ (fun p p' => p.resolveIn q inst = .ok p') d.typeParams m.typeParams
  /-- A parameter is as declared, and the last one may be marked as varargs. -/
  params : List.Forall₂ (fun p p' => ∃ type, p.type.resolveIn q inst = .ok type
    ∧ (p'.type = type ∨ d.varargs = true ∧ p'.type = type.markVarargs)) d.params m.params
  throws : List.Forall₂ (fun t t' => t.resolveIn q inst = .ok t') d.throws m.throws
  returns : d.returns.resolveIn q inst = .ok m.returns

/-- **Parameters are resolved one by one.** If the method is declared with varargs, the last one is
marked. -/
theorem forall₂_zipIdx_of_resolveParameters {params : List ParameterDecl} {varargs : Bool}
    {q : String} {inst : Instantiation} {ps : List Parameter}
    (h : resolveParameters params varargs q inst = .ok ps) :
    List.Forall₂ (fun p p' => ∃ type, p.1.type.resolveIn q inst = .ok type
      ∧ p'.type = if varargs && p.2 + 1 = params.length then type.markVarargs else type)
      params.zipIdx ps := by
  unfold resolveParameters at h
  refine (mapM_eq_ok_iff.mp h).imp ?_
  rintro ⟨p, index⟩ p' hp
  obtain ⟨type, htype, he⟩ := bind_eq_ok.mp hp
  rw [← pure_eq_ok.mp he]
  exact ⟨type, htype, rfl⟩

theorem forall₂_of_resolveParameters {params : List ParameterDecl} {varargs : Bool} {q : String}
    {inst : Instantiation} {ps : List Parameter}
    (h : resolveParameters params varargs q inst = .ok ps) :
    List.Forall₂ (fun p p' => ∃ type, p.type.resolveIn q inst = .ok type
      ∧ (p'.type = type ∨ varargs = true ∧ p'.type = type.markVarargs)) params ps := by
  -- the positions only matter for the marker
  have hdrop : params = params.zipIdx.map Prod.fst := (List.zipIdx_map_fst 0 params).symm
  rw [hdrop, List.forall₂_map_left_iff]
  refine (forall₂_zipIdx_of_resolveParameters h).imp ?_
  rintro p p' ⟨type, htype, he⟩
  refine ⟨type, htype, ?_⟩
  rw [he]
  split
  · next hlast => exact Or.inr ⟨(Bool.and_eq_true _ _ ▸ hlast).1, rfl⟩
  · exact Or.inl rfl

theorem MethodDecl.resolves_of_resolveIn {d : MethodDecl} {q : String} {inst : Instantiation}
    {m : TraitMethod} (h : d.resolveIn q inst = .ok m) :
    d.Resolves q inst m ∧ m.inheritedFrom = none := by
  unfold resolveIn at h
  obtain ⟨typeParams, htypeParams, h⟩ := bind_eq_ok.mp h
  obtain ⟨params, hparams, h⟩ := bind_eq_ok.mp h
  obtain ⟨throws, hthrows, h⟩ := bind_eq_ok.mp h
  obtain ⟨returns, hreturns, h⟩ := bind_eq_ok.mp h
  rw [← pure_eq_ok.mp h]
  exact ⟨⟨mapM_eq_ok_iff.mp htypeParams, forall₂_of_resolveParameters hparams,
    mapM_eq_ok_iff.mp hthrows, hreturns⟩, rfl⟩

theorem MethodDecl.resolveParameters_of_resolveIn {d : MethodDecl} {q : String}
    {inst : Instantiation} {m : TraitMethod} (h : d.resolveIn q inst = .ok m) :
    resolveParameters d.params d.varargs q inst = .ok m.params := by
  unfold resolveIn at h
  obtain ⟨_, -, h⟩ := bind_eq_ok.mp h
  obtain ⟨params, hparams, h⟩ := bind_eq_ok.mp h
  obtain ⟨_, -, h⟩ := bind_eq_ok.mp h
  obtain ⟨_, -, h⟩ := bind_eq_ok.mp h
  rw [← pure_eq_ok.mp h]
  exact hparams

/-- A method that has been resolved has no body yet. -/
theorem MethodDecl.kind_of_resolveIn {d : MethodDecl} {q : String} {inst : Instantiation}
    {m : TraitMethod} (h : d.resolveIn q inst = .ok m) : m.kind = .abstract := by
  unfold resolveIn at h
  obtain ⟨_, -, h⟩ := bind_eq_ok.mp h
  obtain ⟨_, -, h⟩ := bind_eq_ok.mp h
  obtain ⟨_, -, h⟩ := bind_eq_ok.mp h
  obtain ⟨_, -, h⟩ := bind_eq_ok.mp h
  rw [← pure_eq_ok.mp h]

/-- The kind of a method is chosen after it has been resolved. -/
theorem MethodDecl.resolveIn_withKind {d : MethodDecl} {q : String} {inst : Instantiation}
    {m : TraitMethod} (hm : d.resolveIn q inst = .ok m) (kind : MethodKind) :
    d.resolveIn q inst = .ok { { m with kind } with kind := .abstract } := by
  have hkind := kind_of_resolveIn hm
  rw [hm, ← hkind]

theorem MethodDecl.isInherited_of_resolveIn {d : MethodDecl} {q : String} {inst : Instantiation}
    {m : TraitMethod} (hm : d.resolveIn q inst = .ok m) (kind : MethodKind) :
    ({ m with kind } : TraitMethod).isInherited = false := by
  rw [TraitMethod.isInherited, (resolves_of_resolveIn hm).2]
  rfl

/-! ## Interfaces -/

/-- The interface of a trait that a declaration stands for, and the methods that come with it. -/
structure InterfaceDecl.Resolves (i : InterfaceDecl) (q : String) (ti : TraitInterface)
    (ms : List TraitMethod) : Prop where
  /-- There are arguments for all parameters, or none at all. -/
  arity : i.args = [] ∨ i.args.length = i.typeParams.length
  args : List.Forall₂ (fun a r => a.resolveIn q [] = .ok r) i.args ti.type.args
  instantiation : ti.instantiation = i.instantiation ti.type.args
  methods : List.Forall₂
    (fun d m => d.Resolves q ti.instantiation m ∧ m.inheritedFrom = some ti.type.name.qualified)
    (i.methods.filter (!·.isOwn)) ms

/-- The methods that come with an interface are made of its own, with what the trait puts for its
parameters. -/
theorem InterfaceDecl.exists_of_resolveIn {i : InterfaceDecl} {q : String} {ti : TraitInterface}
    {ms : List TraitMethod} (h : i.resolveIn q = .ok (ti, ms)) :
    (i.args = [] ∨ i.args.length = i.typeParams.length)
      ∧ List.Forall₂ (fun a r => a.resolveIn q [] = .ok r) i.args ti.type.args
      ∧ ti.instantiation = i.instantiation ti.type.args
      ∧ List.Forall₂ (fun d m => d.resolveIn q ti.instantiation =
            .ok { m with kind := .abstract, inheritedFrom := none }
          ∧ m.inheritedFrom = some ti.type.name.qualified)
        (i.methods.filter (!·.isOwn)) ms := by
  unfold resolveIn at h
  obtain ⟨name, -, h⟩ := bind_eq_ok.mp h
  by_cases harity : (!i.args.isEmpty && i.args.length ≠ i.typeParams.length) = true
  · rw [if_pos harity] at h
    cases h
  · rw [if_neg harity] at h
    obtain ⟨args, hargs, h⟩ := bind_eq_ok.mp h
    obtain ⟨ms', hms, h⟩ := bind_eq_ok.mp h
    obtain ⟨rfl, rfl⟩ := Prod.mk.inj (pure_eq_ok.mp h)
    refine ⟨?_, mapM_eq_ok_iff.mp (mapError_eq_ok.mp hargs), rfl, ?_⟩
    · by_cases he : i.args = []
      · exact Or.inl he
      · refine Or.inr (by_contra fun hne => harity ?_)
        simp [he, hne]
    · refine (mapM_eq_ok_iff.mp hms).imp fun d m hm => ?_
      obtain ⟨m', hm', he⟩ := bind_eq_ok.mp hm
      have hm' := mapError_eq_ok.mp hm'
      rw [← pure_eq_ok.mp he, hm', ← MethodDecl.kind_of_resolveIn hm',
        ← (MethodDecl.resolves_of_resolveIn hm').2]
      exact ⟨rfl, rfl⟩

theorem InterfaceDecl.resolves_of_resolveIn {i : InterfaceDecl} {q : String} {ti : TraitInterface}
    {ms : List TraitMethod} (h : i.resolveIn q = .ok (ti, ms)) : i.Resolves q ti ms := by
  obtain ⟨harity, hargs, hinst, hms⟩ := exists_of_resolveIn h
  refine ⟨harity, hargs, hinst, hms.imp fun d m ⟨hm, hfrom⟩ => ⟨?_, hfrom⟩⟩
  obtain ⟨hres, -⟩ := MethodDecl.resolves_of_resolveIn hm
  exact ⟨hres.typeParams, hres.params, hres.throws, hres.returns⟩

namespace InterfaceDecl

variable {i : InterfaceDecl} {q : String} {ti : TraitInterface} {ms : List TraitMethod}

/-- There is something for every parameter of the interface, and for nothing else. -/
theorem Resolves.map_fst_instantiation (h : i.Resolves q ti ms) :
    ti.instantiation.map Prod.fst = i.typeParams := by
  rw [h.instantiation]
  unfold InterfaceDecl.instantiation
  by_cases hargs : ti.type.args = []
  · rw [if_pos (List.isEmpty_iff.mpr hargs), List.map_map]
    exact List.map_id i.typeParams
  · rw [if_neg (fun he => hargs (List.isEmpty_iff.mp he))]
    have hne : i.args ≠ [] := fun he => hargs (List.forall₂_nil_left_iff.mp (he ▸ h.args))
    have hlength := (h.arity.resolve_left hne).symm.trans h.args.length_eq
    exact List.map_fst_zip (Nat.le_of_eq hlength)

theorem Resolves.lookup_ne_none (h : i.Resolves q ti ms) {name : String}
    (hname : name ∈ i.typeParams) : ti.instantiation.lookup name ≠ none :=
  fun hnone => lookup_eq_none_iff.mp hnone (h.map_fst_instantiation.symm ▸ hname)

/-- What is put for a parameter is an argument, or the root of the hierarchy. -/
theorem Resolves.eq_root_or_mem_args_of_mem (h : i.Resolves q ti ms) {e : String × TypeRef}
    (he : e ∈ ti.instantiation) : e.2 = .plain .root ∨ e.2 ∈ ti.type.args := by
  rw [h.instantiation] at he
  unfold InterfaceDecl.instantiation at he
  split at he
  · obtain ⟨name, -, rfl⟩ := List.mem_map.mp he
    exact Or.inl rfl
  · exact Or.inr (List.of_mem_zip he).2

theorem Resolves.eq_root_or_mem_args (h : i.Resolves q ti ms) {name : String} {a : TypeRef}
    (ha : ti.instantiation.lookup name = some a) : a = .plain .root ∨ a ∈ ti.type.args :=
  h.eq_root_or_mem_args_of_mem (mem_of_lookup_eq_some ha)

end InterfaceDecl

end TraitWeaver
