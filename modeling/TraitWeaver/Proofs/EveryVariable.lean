import TraitWeaver.Proofs.Variables

/-!
# What holds of every variable of a type

Whether a type is under a qualifier is a question about all variables in it, at any
depth, and wildcards are not left out: one that got a qualifier would be moved with the
variables. `TypeRef.Every` asks something of all of them, and is followed here through
what happens to a type until it is part of a trait.

* **Renamings** that agree on the variables of a type rename it alike
  (`mapVars_eq_mapVars`), so one that leaves them all alone leaves the type alone.
* **Replacing** gives a type whose variables are those that were left alone and those
  of what was put in (`Every.rewrite`).
* **Resolving** gives plain variables only (`every_plain_of_resolve`).
-/

namespace TraitWeaver

namespace TypeRef

/-- Every variable that occurs has the property, in arguments and bounds too. -/
def Every (P : TypeVar → Prop) (t : TypeRef) : Prop := ∀ p ∈ t.params, P p.var

variable {P Q : TypeVar → Prop}

theorem every_declared_iff {name : DeclaredName} {args : List TypeRef} {dims : Dims} :
    Every P (.declared name args dims) ↔ ∀ t ∈ args, Every P t := by
  unfold Every
  rw [params_declared, List.forall_mem_flatMap]

theorem every_param_iff {var : TypeVar} {upper : List TypeRef} {lower : Option TypeRef}
    {dims : Dims} :
    Every P (.param var upper lower dims) ↔
      P var ∧ (∀ t ∈ upper, Every P t) ∧ ∀ t, lower = some t → Every P t := by
  unfold Every
  rw [params_param, List.forall_mem_cons, List.forall_mem_append, List.forall_mem_flatMap,
    List.forall_mem_flatMap]
  simp only [Option.mem_toList]

/-- Dimensions have no variables. -/
theorem every_withDims_iff {t : TypeRef} {d : Dims} : Every P (t.withDims d) ↔ Every P t := by
  cases t with
  | declared => rw [withDims, every_declared_iff, every_declared_iff]
  | param => rw [withDims, every_param_iff, every_param_iff]

theorem Every.mono {t : TypeRef} (h : t.Every P) (hPQ : ∀ v, P v → Q v) : t.Every Q :=
  fun p hp => hPQ p.var (h p hp)

/-- Wildcards apart, these are the variables that are counted. -/
theorem every_of_vars {t : TypeRef} (hwild : ∀ v, v.isWildcard = true → P v)
    (h : ∀ v ∈ t.vars, P v) : t.Every P := by
  intro p hp
  cases hw : p.var.isWildcard with
  | true => exact hwild p.var hw
  | false =>
      refine h p.var (List.mem_filter.mpr ⟨List.mem_map_of_mem hp, ?_⟩)
      rw [hw]
      rfl

/-! ## Renaming -/

/-- What becomes of the variables when a type is renamed. -/
theorem every_mapVars_iff {f : TypeVar → TypeVar} {t : TypeRef} :
    Every P (t.mapVars f) ↔ t.Every fun v => P (f v) := by
  induction t with
  | declared name args dims ih =>
      rw [mapVars_declared, every_declared_iff, every_declared_iff, List.forall_mem_map]
      exact forall₂_congr ih
  | param var upper lower dims ihu ihl =>
      rw [mapVars_param, every_param_iff, every_param_iff, List.forall_mem_map]
      refine and_congr_right fun _ => and_congr (forall₂_congr ihu) ?_
      cases lower with
      | none => simp
      | some t => simpa using ihl t rfl

/-- **Renamings that agree on the variables of a type rename it alike.** -/
theorem mapVars_eq_mapVars {f g : TypeVar → TypeVar} {t : TypeRef}
    (h : t.Every fun v => f v = g v) : t.mapVars f = t.mapVars g := by
  induction t with
  | declared name args dims ih =>
      rw [mapVars_declared, mapVars_declared]
      have hargs := every_declared_iff.mp h
      exact congrArg (TypeRef.declared name · dims)
        (List.map_congr_left fun a ha => ih a ha (hargs a ha))
  | param var upper lower dims ihu ihl =>
      obtain ⟨hvar, hupper, hlower⟩ := every_param_iff.mp h
      have hu := List.map_congr_left fun u hu => ihu u hu (hupper u hu)
      have hl : lower.map (mapVars f) = lower.map (mapVars g) := by
        cases lower with
        | none => rfl
        | some t => exact congrArg some (ihl t rfl (hlower t rfl))
      rw [mapVars_param, mapVars_param, hvar, hu, hl]

theorem mapVars_id (t : TypeRef) : t.mapVars id = t :=
  (rewrite_eq_mapVars (fun _ => Or.inr ⟨rfl, rfl⟩) t).symm.trans t.rewrite_none

/-- A renaming that leaves all variables of a type alone leaves the type alone. -/
theorem mapVars_eq_self {f : TypeVar → TypeVar} {t : TypeRef}
    (h : t.Every fun v => f v = v) : t.mapVars f = t :=
  (mapVars_eq_mapVars h).trans t.mapVars_id

/-! ## Replacing -/

/-- **What is asked of a type with replacements** is asked of the variables that are left alone and
of what is put for the others. -/
theorem Every.rewrite {g : TypeVar → Option TypeRef} {t : TypeRef} (h : t.Every P)
    (hleft : ∀ v, P v → g v = none → Q v) (hput : ∀ v r, g v = some r → r.Every Q) :
    (t.rewrite fun p => g p.var).Every Q := by
  induction t with
  | declared name args dims ih =>
      have hargs := every_declared_iff.mp h
      rw [rewrite_declared, every_declared_iff, List.forall_mem_map]
      exact fun a ha => ih a ha (hargs a ha)
  | param var upper lower dims ihu ihl =>
      obtain ⟨hvar, hupper, hlower⟩ := every_param_iff.mp h
      rw [rewrite_param]
      split
      · next r hr => exact every_withDims_iff.mpr (hput var r hr)
      · next hnone =>
        rw [every_param_iff, List.forall_mem_map]
        refine ⟨hleft var hvar hnone, fun u hu => ihu u hu (hupper u hu), fun t' ht' => ?_⟩
        obtain ⟨t, ht, rfl⟩ := Option.map_eq_some_iff.mp ht'
        exact ihl t ht (hlower t ht)

end TypeRef

/-! ## Resolving -/

namespace SourceType

section

variable {P : TypeRef → Prop}
  (declared : ∀ name args, (∀ t ∈ args, P t) → P (.declared name args .scalar))
  (param : ∀ name upper lower, (∀ t ∈ upper, P t) → (∀ t, lower = some t → P t) →
    P (.param (.plain name) upper lower .scalar))
  (withDims : ∀ t d, P t → P (t.withDims d))

include declared param withDims

/-- **What holds of a resolved type**: all that holds of a declared type as soon as it holds of the
arguments, of a plain variable as soon as it holds of the bounds, and under any dimensions. -/
theorem of_resolvesTo {t : SourceType} {r : TypeRef} (h : ResolvesTo t r) : P r := by
  have plain : ∀ name, P (.plain name) := fun name =>
    declared name [] fun _ ht => absurd ht List.not_mem_nil
  induction t using inductOnComponents generalizing r with
  | primitive name =>
      obtain ⟨-, rfl⟩ := resolvesTo_primitive_iff.mp h
      exact plain _
  | void =>
      obtain rfl := resolvesTo_void_iff.mp h
      exact plain .void
  | declared name args ih =>
      obtain ⟨n, rs, -, hrs, rfl⟩ := resolvesTo_declared_iff.mp h
      refine declared n rs fun u hu => ?_
      obtain ⟨a, ha, hres⟩ := exists_rel_of_mem hrs hu
      exact ih a ha hres
  | array component ih =>
      obtain ⟨c, hc, rfl⟩ := resolvesTo_array_iff.mp h
      exact withDims c _ (ih hc)
  | typeVariable name upper lower ihu ihl =>
      obtain ⟨-, rs, l, hrs, hl, rfl⟩ := resolvesTo_typeVariable_iff.mp h
      refine param name _ l (fun u hu => ?_) (fun u hu => ?_)
      · obtain ⟨c, hc, hres⟩ := exists_rel_of_mem hrs (List.mem_of_mem_filter hu)
        exact ihu c hc hres
      · subst hu
        cases hl with
        | some hres => exact ihl _ rfl hres
  | wildcard upper lower ihu ihl =>
      obtain ⟨rs, l, hrs, hl, rfl⟩ := resolvesTo_wildcard_iff.mp h
      refine param _ _ l (fun u hu => ?_) (fun u hu => ?_)
      · obtain ⟨c, hc, hres⟩ := exists_rel_of_mem hrs (List.mem_of_mem_filter hu)
        exact ihu c hc hres
      · subst hu
        cases hl with
        | some hres => exact ihl _ rfl hres
  | intersection bounds _ => exact absurd h not_resolvesTo_intersection

end

theorem every_plain_of_resolvesTo {t : SourceType} {r : TypeRef} (h : ResolvesTo t r) :
    r.Every (·.qualifier = none) :=
  of_resolvesTo (fun _ _ h => TypeRef.every_declared_iff.mpr h)
    (fun _ _ _ hu hl => TypeRef.every_param_iff.mpr ⟨rfl, hu, hl⟩)
    (fun _ _ h => TypeRef.every_withDims_iff.mpr h) h

/-- **No variable has a qualifier when a type has been resolved**, neither in a single type nor in an
upper bound. -/
theorem every_plain_of_resolve (t : SourceType) :
    (∀ r, t.resolve = .ok r → r.Every (·.qualifier = none))
      ∧ ∀ us, resolveUpper (some t) = .ok us → ∀ u ∈ us, u.Every (·.qualifier = none) := by
  refine ⟨fun r hr => every_plain_of_resolvesTo hr, fun us hus u hu => ?_⟩
  obtain ⟨c, -, hres⟩ := exists_component_of_resolveUpper hus hu
  exact every_plain_of_resolvesTo hres

end SourceType

end TraitWeaver
