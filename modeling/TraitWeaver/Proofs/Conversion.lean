import TraitWeaver.Declaration.SourceType
import TraitWeaver.Proofs.Outcome

/-!
# What each kind of spelling resolves to

Whatever is said of resolved types is said kind by kind, and for each kind the
question is the same: when does the spelling resolve, and to what. Here is one
answer for each kind, and nothing else needs to open the resolver.

Bounds are the difficult place, since an intersection is a type there and nowhere
else. `components` takes an upper bound apart first. Then every component is
resolved as a type that stands alone, and an induction over spellings may ask for
the components of a bound (`inductOnComponents`) instead of the bound.
-/

namespace TraitWeaver.SourceType

/-- The types that an upper bound consists of. -/
def components : Option SourceType → List SourceType
  | none => []
  | some (.intersection bounds) => bounds
  | some t => [t]

theorem components_some {t : SourceType} (h : ∀ bounds, t ≠ .intersection bounds) :
    components (some t) = [t] := by
  cases t with
  | intersection bounds => exact absurd rfl (h bounds)
  | _ => rfl

/-! ## Induction -/

section

variable {motive : SourceType → Prop}
  (primitive : ∀ name, motive (.primitive name)) (void : motive .void)
  (declared : ∀ name args, (∀ t ∈ args, motive t) → motive (.declared name args))
  (array : ∀ component, motive component → motive (.array component))
  (typeVariable : ∀ name upper lower, (∀ t ∈ components upper, motive t) →
    (∀ t, lower = some t → motive t) → motive (.typeVariable name upper lower))
  (wildcard : ∀ upper lower, (∀ t ∈ components upper, motive t) →
    (∀ t, lower = some t → motive t) → motive (.wildcard upper lower))
  (intersection : ∀ bounds, (∀ t ∈ bounds, motive t) → motive (.intersection bounds))

include primitive void declared array typeVariable wildcard intersection

/-- What holds of a type as soon as it holds of the types in it, an upper bound being the types that
it consists of, holds of all types. -/
theorem inductOnComponents (t : SourceType) : motive t := by
  -- an upper bound owes the fact for its components, which are not always itself
  suffices h : motive t ∧ ∀ u ∈ components (some t), motive u from h.1
  have single : ∀ {t : SourceType}, (∀ bounds, t ≠ .intersection bounds) → motive t →
      motive t ∧ ∀ u ∈ components (some t), motive u := by
    intro t hne ht
    rw [components_some hne]
    exact ⟨ht, List.forall_mem_singleton.mpr ht⟩
  have bound : ∀ {upper : Option SourceType},
      (∀ t, upper = some t → motive t ∧ ∀ u ∈ components (some t), motive u) →
      ∀ u ∈ components upper, motive u := by
    intro upper h
    cases upper with
    | none => exact fun u hu => absurd hu List.not_mem_nil
    | some t => exact (h t rfl).2
  induction t with
  | primitive name => exact single (by simp) (primitive name)
  | void => exact single (by simp) void
  | declared name args ih =>
      exact single (by simp) (declared name args fun t ht => (ih t ht).1)
  | array component ih => exact single (by simp) (array component ih.1)
  | typeVariable name upper lower ihu ihl =>
      exact single (by simp)
        (typeVariable name upper lower (bound ihu) fun t ht => (ihl t ht).1)
  | wildcard upper lower ihu ihl =>
      exact single (by simp) (wildcard upper lower (bound ihu) fun t ht => (ihl t ht).1)
  | intersection bounds ih =>
      exact ⟨intersection bounds fun t ht => (ih t ht).1, fun u hu => (ih u hu).1⟩

end

/-! ## Lists and bounds -/

/-- The spelling resolves to the reference. -/
def ResolvesTo (t : SourceType) (r : TypeRef) : Prop := t.resolve = .ok r

variable {name : String} {args ts : List SourceType} {rs us : List TypeRef}
  {component : SourceType} {upper lower : Option SourceType} {l : Option TypeRef} {r : TypeRef}

theorem resolveAll_eq_ok_iff : resolveAll ts = .ok rs ↔ List.Forall₂ ResolvesTo ts rs := by
  induction ts generalizing rs with
  | nil => rw [resolveAll, pure_eq_ok, List.forall₂_nil_left_iff, eq_comm]
  | cons t ts ih =>
      rw [resolveAll, bind_eq_ok, List.forall₂_cons_left_iff]
      refine exists_congr fun r => ?_
      simp only [bind_eq_ok, pure_eq_ok, ih]
      refine ⟨?_, ?_⟩
      · rintro ⟨hr, rest, hrest, rfl⟩
        exact ⟨rest, hr, hrest, rfl⟩
      · rintro ⟨rest, hr, hrest, rfl⟩
        exact ⟨hr, rest, hrest, rfl⟩

/-- **An upper bound resolves as its components do**, and the root is left out afterwards. -/
theorem resolveUpper_eq_ok_iff :
    resolveUpper upper = .ok us ↔
      ∃ rs, List.Forall₂ ResolvesTo (components upper) rs ∧ withoutRoot rs = us := by
  have single : ∀ {t : SourceType},
      (resolve t >>= fun r => pure (withoutRoot [r])) = .ok us ↔
        ∃ rs, List.Forall₂ ResolvesTo [t] rs ∧ withoutRoot rs = us := by
    intro t
    simp only [bind_eq_ok, pure_eq_ok, List.forall₂_cons_left_iff, List.forall₂_nil_left_iff]
    refine ⟨?_, ?_⟩
    · rintro ⟨r, hr, rfl⟩
      exact ⟨[r], ⟨r, [], hr, rfl, rfl⟩, rfl⟩
    · rintro ⟨_, ⟨r, _, hr, rfl, rfl⟩, rfl⟩
      exact ⟨r, hr, rfl⟩
  cases upper with
  | none =>
      rw [resolveUpper, pure_eq_ok, components]
      simp [withoutRoot]
  | some t =>
      cases t with
      | intersection bounds =>
          rw [resolveUpper, components]
          simp only [bind_eq_ok, pure_eq_ok, resolveAll_eq_ok_iff]
      | _ => exact single

theorem exists_component_of_resolveUpper (h : resolveUpper upper = .ok us) {u : TypeRef}
    (hu : u ∈ us) : ∃ c ∈ components upper, ResolvesTo c u := by
  obtain ⟨rs, hrs, rfl⟩ := resolveUpper_eq_ok_iff.mp h
  exact exists_rel_of_mem hrs (List.mem_of_mem_filter hu)

theorem resolveLower_eq_ok_iff : resolveLower lower = .ok l ↔ Option.Rel ResolvesTo lower l := by
  cases lower with
  | none =>
      rw [resolveLower, pure_eq_ok]
      cases l <;> simp
  | some t =>
      rw [resolveLower]
      simp only [bind_eq_ok, pure_eq_ok]
      cases l <;> simp [ResolvesTo]

/-! ## Types -/

theorem resolvesTo_primitive_iff :
    ResolvesTo (.primitive name) r ↔
      DeclaredName.isPrimitive ⟨"", name⟩ = true ∧ r = .plain ⟨"", name⟩ := by
  unfold ResolvesTo
  rw [resolve, bind_eq_ok]
  refine ⟨?_, ?_⟩
  · rintro ⟨n, hn, h⟩
    unfold DeclaredName.make at hn
    split at hn
    · cases hn
    · obtain rfl := Except.ok.inj hn
      split at h
      · rename_i hp
        exact ⟨hp, (pure_eq_ok.mp h).symm⟩
      · cases h
  · rintro ⟨hp, rfl⟩
    -- the empty name is no primitive's
    have hname : name ≠ "" := by
      rintro rfl
      exact absurd hp (by decide)
    exact ⟨⟨"", name⟩, if_neg hname, if_pos hp⟩

theorem resolvesTo_void_iff : ResolvesTo .void r ↔ r = .plain .void :=
  pure_eq_ok.trans eq_comm

theorem resolvesTo_declared_iff :
    ResolvesTo (.declared name args) r ↔
      ∃ n rs, DeclaredName.ofQualified name = .ok n ∧ List.Forall₂ ResolvesTo args rs
        ∧ r = .declared n rs .scalar := by
  unfold ResolvesTo
  rw [resolve]
  simp only [bind_eq_ok, pure_eq_ok, resolveAll_eq_ok_iff]
  refine ⟨?_, ?_⟩
  · rintro ⟨rs, hrs, n, hn, rfl⟩
    exact ⟨n, rs, hn, hrs, rfl⟩
  · rintro ⟨n, rs, hn, hrs, rfl⟩
    exact ⟨rs, hrs, n, hn, rfl⟩

theorem resolvesTo_array_iff :
    ResolvesTo (.array component) r ↔
      ∃ c, ResolvesTo component c ∧ r = c.withDepth (c.dims.depth + 1) := by
  unfold ResolvesTo
  rw [resolve]
  simp only [bind_eq_ok, pure_eq_ok, @eq_comm _ r]

/-- A variable and a wildcard differ in nothing but the name. -/
theorem resolve_param_eq_ok_iff {var : TypeVar} :
    (do
      let upper ← resolveUpper upper
      let lower ← resolveLower lower
      return TypeRef.param var upper lower .scalar) = .ok r ↔
      ∃ rs l, List.Forall₂ ResolvesTo (components upper) rs ∧ Option.Rel ResolvesTo lower l
        ∧ r = .param var (withoutRoot rs) l .scalar := by
  simp only [bind_eq_ok, pure_eq_ok, resolveUpper_eq_ok_iff, resolveLower_eq_ok_iff]
  refine ⟨?_, ?_⟩
  · rintro ⟨_, ⟨rs, hrs, rfl⟩, l, hl, rfl⟩
    exact ⟨rs, l, hrs, hl, rfl⟩
  · rintro ⟨rs, l, hrs, hl, rfl⟩
    exact ⟨_, ⟨rs, hrs, rfl⟩, l, hl, rfl⟩

theorem resolvesTo_typeVariable_iff :
    ResolvesTo (.typeVariable name upper lower) r ↔
      name ≠ "" ∧ ∃ rs l, List.Forall₂ ResolvesTo (components upper) rs
        ∧ Option.Rel ResolvesTo lower l
        ∧ r = .param (.plain name) (withoutRoot rs) l .scalar := by
  unfold ResolvesTo
  rw [resolve]
  by_cases hname : name = ""
  · rw [if_pos hname]
    exact iff_of_false nofun fun h => h.1 hname
  · rw [if_neg hname, and_iff_right hname]
    exact resolve_param_eq_ok_iff

theorem resolvesTo_wildcard_iff :
    ResolvesTo (.wildcard upper lower) r ↔
      ∃ rs l, List.Forall₂ ResolvesTo (components upper) rs ∧ Option.Rel ResolvesTo lower l
        ∧ r = .param (.plain TypeVar.wildcardName) (withoutRoot rs) l .scalar :=
  resolve_param_eq_ok_iff

theorem not_resolvesTo_intersection {bounds : List SourceType} :
    ¬ResolvesTo (.intersection bounds) r := nofun

end TraitWeaver.SourceType
