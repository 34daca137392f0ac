import Mathlib.Data.List.Basic
import TraitWeaver.Proofs.Conversion
import TraitWeaver.Proofs.Qualifier
import TraitWeaver.Proofs.TraitResolution
import TraitWeaver.TypeRef.Occurrences

/-!
# The variables of a type

Whether a variable is declared where it occurs is a question about the variables
of a type and nothing else of it. They are followed here through everything that
happens to a type on its way into a generated file:

* **resolving** a spelling invents none (`vars_subset_of_resolve`);
* **renaming** a type renames its variables one by one (`vars_mapVars`), which
  covers qualifying and requalifying;
* **replacing** leaves a variable alone or brings in those of what is put in its
  place (`mem_vars_rewrite`).

A wildcard is written as a variable but stands for nothing that could be declared,
so it is not counted.
-/

namespace TraitWeaver

namespace TypeVar

/-- The variable under a qualifier, unless it has one or is a wildcard. -/
def qualify (q : String) (v : TypeVar) : TypeVar :=
  if v.isWildcard || v.qualifier.isSome then v else ⟨v.name, some q⟩

theorem qualify_of_isSome {q : String} {v : TypeVar} (h : v.qualifier.isSome) :
    v.qualify q = v := by
  unfold qualify
  rw [h, Bool.or_true]
  rfl

theorem qualify_plain {q name : String} (h : name ≠ wildcardName) :
    (plain name).qualify q = ⟨name, some q⟩ := by
  unfold qualify isWildcard plain
  simp [h]

theorem isWildcard_qualify (q : String) (v : TypeVar) :
    (v.qualify q).isWildcard = v.isWildcard := by
  unfold qualify
  split
  · rfl
  · rfl

theorem isWildcard_requalify (old new : String) (v : TypeVar) :
    (v.requalify old new).isWildcard = v.isWildcard := by
  unfold requalify
  split
  · rfl
  · rfl

end TypeVar

/-- What is put for a variable, which must not be qualified. -/
def Instantiation.value? (inst : Instantiation) (v : TypeVar) : Option TypeRef :=
  if v.qualifier.isSome then none else inst.lookup v.name

/-! ## References -/

namespace TypeRef

/-- The variables that occur, those in bounds included and wildcards left out. -/
def vars (t : TypeRef) : List TypeVar := (t.params.map (·.var)).filter (!·.isWildcard)

theorem vars_declared (name : DeclaredName) (args : List TypeRef) (dims : Dims) :
    vars (.declared name args dims) = args.flatMap vars := by
  unfold vars
  rw [params_declared, List.map_flatMap, List.filter_flatMap]

theorem vars_param (var : TypeVar) (upper : List TypeRef) (lower : Option TypeRef) (dims : Dims) :
    vars (.param var upper lower dims) = (if var.isWildcard then [] else [var])
      ++ (upper.flatMap vars ++ lower.toList.flatMap vars) := by
  unfold vars
  rw [params_param, List.map_cons, List.map_append, List.map_flatMap, List.map_flatMap,
    List.filter_cons, List.filter_append, List.filter_flatMap, List.filter_flatMap]
  cases var.isWildcard with
  | false => rfl
  | true => rfl

theorem mem_vars_param {var : TypeVar} {upper : List TypeRef} {lower : Option TypeRef}
    {dims : Dims} {v : TypeVar} :
    v ∈ vars (.param var upper lower dims) ↔ (v = var ∧ v.isWildcard = false)
      ∨ (∃ t ∈ upper, v ∈ t.vars) ∨ ∃ t, lower = some t ∧ v ∈ t.vars := by
  rw [vars_param, List.mem_append, List.mem_append, List.mem_flatMap, List.mem_flatMap]
  refine or_congr ?_ (or_congr Iff.rfl (exists_congr fun t => ?_))
  · cases hw : var.isWildcard with
    | false => simpa using fun h => h ▸ hw
    | true => simpa using fun h => h ▸ hw
  · rw [Option.mem_toList]

/-- Dimensions have no variables. -/
theorem vars_withDims (t : TypeRef) (d : Dims) : (t.withDims d).vars = t.vars := by
  cases t with
  | declared => rw [withDims, vars_declared, vars_declared]
  | param => rw [withDims, vars_param, vars_param]

theorem vars_under (t : TypeRef) (d : Dims) : (t.under d).vars = t.vars := t.vars_withDims _

theorem vars_markVarargs (t : TypeRef) : t.markVarargs.vars = t.vars := t.vars_withDims _

/-- **Renaming a type renames its variables**, as long as no variable becomes a wildcard or ceases
to be one. -/
theorem vars_mapVars {f : TypeVar → TypeVar} (hf : ∀ v, (f v).isWildcard = v.isWildcard)
    (t : TypeRef) : (t.mapVars f).vars = t.vars.map f := by
  have hall : ∀ ts : List TypeRef, (∀ t ∈ ts, (t.mapVars f).vars = t.vars.map f) →
      (ts.map (mapVars f)).flatMap vars = (ts.flatMap vars).map f := by
    intro ts h
    rw [List.flatMap_map, List.map_flatMap]
    exact List.flatMap_congr h
  induction t with
  | declared name args dims ih =>
      rw [mapVars_declared, vars_declared, vars_declared]
      exact hall args ih
  | param var upper lower dims ihu ihl =>
      have hl : (lower.map (mapVars f)).toList = lower.toList.map (mapVars f) := by
        cases lower with
        | none => rfl
        | some t => rfl
      rw [mapVars_param, vars_param, vars_param, hl, hall upper ihu,
        hall lower.toList (fun t ht => ihl t (Option.mem_toList.mp ht)), hf, List.map_append,
        List.map_append]
      cases var.isWildcard with
      | false => rfl
      | true => rfl

theorem qualify_eq_mapVars (t : TypeRef) (q : String) :
    t.qualify q = t.mapVars (TypeVar.qualify q) := by
  refine rewrite_eq_mapVars (fun p => ?_) t
  unfold TypeVar.qualify TypeParam.isWildcard
  by_cases h : p.var.isWildcard || p.var.qualifier.isSome
  · rw [if_pos h, if_pos h]
    exact Or.inr ⟨rfl, rfl⟩
  · rw [if_neg h, if_neg h]
    exact Or.inl rfl

theorem vars_qualify (t : TypeRef) (q : String) :
    (t.qualify q).vars = t.vars.map (TypeVar.qualify q) := by
  rw [qualify_eq_mapVars]
  exact vars_mapVars (TypeVar.isWildcard_qualify q) t

theorem vars_requalify (t : TypeRef) (old new : String) :
    (t.requalify old new).vars = t.vars.map (TypeVar.requalify old new) := by
  rw [requalify_eq_mapVars]
  exact vars_mapVars (TypeVar.isWildcard_requalify old new) t

/-! ## Replacing variables -/

/-- **A replacement leaves a variable alone, or brings in those of what is put in its place.** -/
theorem mem_vars_rewrite {g : TypeVar → Option TypeRef} {t : TypeRef} {v : TypeVar}
    (hv : v ∈ (t.rewrite fun p => g p.var).vars) :
    (v ∈ t.vars ∧ g v = none) ∨ ∃ w r, g w = some r ∧ v ∈ r.vars := by
  induction t with
  | declared name args dims ih =>
      rw [rewrite_declared, vars_declared, List.mem_flatMap] at hv
      obtain ⟨t', ht', hv⟩ := hv
      obtain ⟨t, ht, rfl⟩ := List.mem_map.mp ht'
      refine (ih t ht hv).imp_left fun h => ⟨?_, h.2⟩
      rw [vars_declared]
      exact List.mem_flatMap_of_mem ht h.1
  | param var upper lower dims ihu ihl =>
      rw [rewrite_param] at hv
      split at hv
      · next r hr =>
        rw [vars_under] at hv
        exact Or.inr ⟨var, r, hr, hv⟩
      · next hnone =>
        rcases mem_vars_param.mp hv with ⟨rfl, hw⟩ | ⟨t', ht', hv⟩ | ⟨t', ht', hv⟩
        · exact Or.inl ⟨mem_vars_param.mpr (Or.inl ⟨rfl, hw⟩), hnone⟩
        · obtain ⟨t, ht, rfl⟩ := List.mem_map.mp ht'
          exact (ihu t ht hv).imp_left fun h =>
            ⟨mem_vars_param.mpr (Or.inr (Or.inl ⟨t, ht, h.1⟩)), h.2⟩
        · obtain ⟨t, ht, rfl⟩ := Option.map_eq_some_iff.mp ht'
          exact (ihl t ht hv).imp_left fun h =>
            ⟨mem_vars_param.mpr (Or.inr (Or.inr ⟨t, ht, h.1⟩)), h.2⟩

theorem rewrite_none (t : TypeRef) : t.rewrite (fun _ => none) = t := by
  induction t with
  | declared name args dims ih =>
      rw [rewrite_declared, List.map_congr_left ih, List.map_id']
  | param var upper lower dims ihu ihl =>
      have hl : lower.map (rewrite fun _ => none) = lower := by
        cases lower with
        | none => rfl
        | some t => exact congrArg some (ihl t rfl)
      rw [rewrite_param, List.map_congr_left ihu, List.map_id', hl]

theorem instantiate_eq_rewrite (t : TypeRef) (inst : Instantiation) :
    t.instantiate inst = t.rewrite fun p => inst.value? p.var := by
  unfold instantiate
  cases inst with
  | nil =>
      have hnone : (fun p : TypeParam => Instantiation.value? [] p.var) = fun _ => none := by
        funext p
        unfold Instantiation.value?
        split
        · rfl
        · rfl
      rw [hnone, rewrite_none]
      rfl
  | cons entry rest => rfl

/-- **In the terms of a trait**, a variable is under the trait's qualifier, or it is one of what the
trait puts for an interface's parameter. -/
theorem mem_vars_qualify_instantiate {t : TypeRef} {q : String} {inst : Instantiation}
    {names : List String} (ht : t.vars ⊆ names.map .plain)
    (hinst : ∀ name a, inst.lookup name = some a → ∀ w ∈ a.vars, w.qualifier.isSome)
    {v : TypeVar} (hv : v ∈ ((t.instantiate inst).qualify q).vars) :
    (∃ name ∈ names, inst.lookup name = none ∧ v = ⟨name, some q⟩)
      ∨ ∃ name a, inst.lookup name = some a ∧ v ∈ a.vars := by
  have hwild : v.isWildcard = false := by
    have := (List.mem_filter.mp hv).2
    simpa using this
  rw [vars_qualify, List.mem_map] at hv
  obtain ⟨w, hw, rfl⟩ := hv
  rw [instantiate_eq_rewrite] at hw
  rcases mem_vars_rewrite hw with ⟨hw, hnone⟩ | ⟨u, r, hr, hw⟩
  · obtain ⟨name, hname, rfl⟩ := List.mem_map.mp (ht hw)
    rw [TypeVar.isWildcard_qualify] at hwild
    refine Or.inl ⟨name, hname, hnone, TypeVar.qualify_plain ?_⟩
    exact of_decide_eq_false hwild
  · unfold Instantiation.value? at hr
    split at hr
    · cases hr
    · rw [TypeVar.qualify_of_isSome (hinst u.name r hr w hw)]
      exact Or.inr ⟨u.name, r, hr, hw⟩

end TypeRef

/-! ## Spellings -/

namespace SourceType

mutual

/-- The names of the variables in a spelling, those in bounds included. -/
def varNames : SourceType → List String
  | .primitive _ | .void => []
  | .declared _ args => varNamesOfAll args
  | .array component => varNames component
  | .typeVariable name upper lower =>
    (if name = TypeVar.wildcardName then [] else [name])
      ++ (varNamesOfBound upper ++ varNamesOfBound lower)
  | .wildcard upper lower => varNamesOfBound upper ++ varNamesOfBound lower
  | .intersection bounds => varNamesOfAll bounds

/-- The variables in several spellings. -/
def varNamesOfAll : List SourceType → List String
  | [] => []
  | t :: ts => varNames t ++ varNamesOfAll ts

def varNamesOfBound : Option SourceType → List String
  | none => []
  | some t => varNames t

end

theorem varNames_subset_of_mem {ts : List SourceType} {t : SourceType} (ht : t ∈ ts) :
    t.varNames ⊆ varNamesOfAll ts := by
  induction ts with
  | nil => exact absurd ht List.not_mem_nil
  | cons u us ih =>
      rw [varNamesOfAll]
      rcases List.mem_cons.mp ht with rfl | ht
      · exact List.subset_append_left _ _
      · exact List.subset_append_of_subset_right _ (ih ht)

theorem varNames_subset_of_mem_components {upper : Option SourceType} {c : SourceType}
    (hc : c ∈ components upper) : c.varNames ⊆ varNamesOfBound upper := by
  cases upper with
  | none => exact absurd hc List.not_mem_nil
  | some t =>
      cases t with
      | intersection bounds => exact varNames_subset_of_mem hc
      | _ => exact List.mem_singleton.mp hc ▸ List.Subset.refl _

/-- A resolved parameter uses its own name and those that its bounds are spelled with. -/
theorem vars_param_subset {name : String} {upper lower : Option SourceType} {rs : List TypeRef}
    {l : Option TypeRef} {names : List String}
    (hrs : List.Forall₂ ResolvesTo (components upper) rs) (hl : Option.Rel ResolvesTo lower l)
    (hupper : ∀ c ∈ components upper, ∀ {r}, ResolvesTo c r → r.vars ⊆ c.varNames.map .plain)
    (hlower : ∀ t, lower = some t → ∀ {r}, ResolvesTo t r → r.vars ⊆ t.varNames.map .plain)
    (hname : name ≠ TypeVar.wildcardName → name ∈ names)
    (hbounds : varNamesOfBound upper ++ varNamesOfBound lower ⊆ names) :
    (TypeRef.param (.plain name) (withoutRoot rs) l .scalar).vars ⊆ names.map .plain := by
  obtain ⟨hu, hl'⟩ := List.append_subset.mp hbounds
  intro v hv
  rcases TypeRef.mem_vars_param.mp hv with ⟨rfl, hw⟩ | ⟨u, hu', hvu⟩ | ⟨u, rfl, hvu⟩
  · exact List.mem_map_of_mem (hname (of_decide_eq_false hw))
  · obtain ⟨c, hc, hres⟩ := exists_rel_of_mem hrs (List.mem_of_mem_filter hu')
    have hnames := List.Subset.trans (varNames_subset_of_mem_components hc) hu
    exact List.map_subset _ hnames (hupper c hc hres hvu)
  · cases hl with
    | some hres => exact List.map_subset _ hl' (hlower _ rfl hres hvu)

/-- **Resolving invents no variable.** -/
theorem vars_subset_of_resolvesTo {t : SourceType} {r : TypeRef} (h : ResolvesTo t r) :
    r.vars ⊆ t.varNames.map .plain := by
  induction t using inductOnComponents generalizing r with
  | primitive name =>
      obtain ⟨-, rfl⟩ := resolvesTo_primitive_iff.mp h
      exact List.nil_subset _
  | void =>
      obtain rfl := resolvesTo_void_iff.mp h
      exact List.nil_subset _
  | declared name args ih =>
      obtain ⟨n, rs, -, hrs, rfl⟩ := resolvesTo_declared_iff.mp h
      rw [TypeRef.vars_declared]
      intro v hv
      obtain ⟨u, hu, hv⟩ := List.mem_flatMap.mp hv
      obtain ⟨a, ha, hres⟩ := exists_rel_of_mem hrs hu
      exact List.map_subset _ (varNames_subset_of_mem ha) (ih a ha hres hv)
  | array component ih =>
      obtain ⟨c, hc, rfl⟩ := resolvesTo_array_iff.mp h
      rw [TypeRef.withDepth, TypeRef.vars_withDims]
      exact ih hc
  | typeVariable name upper lower ihu ihl =>
      obtain ⟨-, rs, l, hrs, hl, rfl⟩ := resolvesTo_typeVariable_iff.mp h
      refine vars_param_subset hrs hl ihu ihl (fun hw => ?_) (List.subset_append_right _ _)
      rw [varNames, if_neg hw]
      exact List.mem_cons_self
  | wildcard upper lower ihu ihl =>
      obtain ⟨rs, l, hrs, hl, rfl⟩ := resolvesTo_wildcard_iff.mp h
      exact vars_param_subset hrs hl ihu ihl (fun hw => absurd rfl hw) (List.Subset.refl _)
  | intersection bounds _ => exact absurd h not_resolvesTo_intersection

/-- **A resolved type uses the names that it is spelled with.** -/
theorem vars_subset_of_resolve {t : SourceType} {r : TypeRef} (h : t.resolve = .ok r) :
    r.vars ⊆ t.varNames.map .plain :=
  vars_subset_of_resolvesTo h

/-- The bounds that a type comes to use them, too. -/
theorem vars_subset_of_resolveUpper {t : SourceType} {us : List TypeRef}
    (h : resolveUpper (some t) = .ok us) : ∀ u ∈ us, u.vars ⊆ t.varNames.map .plain := by
  intro u hu
  obtain ⟨c, hc, hres⟩ := exists_component_of_resolveUpper h hu
  exact List.Subset.trans (vars_subset_of_resolvesTo hres)
    (List.map_subset _ (varNames_subset_of_mem_components hc))

theorem vars_eq_nil_of_resolve {t : SourceType} {r : TypeRef} (h : t.resolve = .ok r)
    (ht : t.varNames = []) : r.vars = [] := by
  have hsub := vars_subset_of_resolve h
  rw [ht] at hsub
  exact List.subset_nil.mp hsub

end SourceType

end TraitWeaver
