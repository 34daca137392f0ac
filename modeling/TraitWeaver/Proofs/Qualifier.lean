import TraitWeaver.Trait.Basic

/-!
# What a change of qualifier leaves alone

A host that composes two traits of one simple name moves one of them to another
qualifier. Everything that composition decides afterwards — which methods are
one, which alias a call goes to — is decided on normalized signatures, so the
move must not be visible there.

Qualifying, requalifying and normalizing are all *renamings*: each replaces the
variable at every occurrence and keeps the rest of the tree. `mapVars` is that
common form, and composing two renamings is renaming by the composite. What
holds of qualifiers then only has to be checked on a single variable.
-/

namespace TraitWeaver

namespace TypeVar

def erased (v : TypeVar) : TypeVar := ⟨v.name, none⟩

/-- The variable under `new` if it was qualified by `old`. -/
def requalify (old new : String) (v : TypeVar) : TypeVar :=
  if v.qualifier = some old then ⟨v.name, some new⟩ else v

/-- **One variable at a time, requalifying is invisible once qualifiers are gone.** -/
theorem erased_requalify (old new : String) (v : TypeVar) :
    (v.requalify old new).erased = v.erased := by
  unfold requalify
  split <;> rfl

/-- **Moving a variable can be undone**, unless it was under the new qualifier before. -/
theorem requalify_requalify {old new : String} {v : TypeVar}
    (h : v.qualifier = some new → old = new) : (v.requalify old new).requalify new old = v := by
  by_cases hold : v.qualifier = some old
  · have hmoved : v.requalify old new = ⟨v.name, some new⟩ := if_pos hold
    rw [hmoved]
    calc requalify new old ⟨v.name, some new⟩ = ⟨v.name, some old⟩ := if_pos rfl
      _ = v := by rw [← hold]
  · have hself : v.requalify old new = v := if_neg hold
    rw [hself]
    exact if_neg fun hnew => hold (h hnew ▸ hnew)

end TypeVar

namespace TypeRef

/-! ## Renamings -/

/-- A use of a parameter takes over the dimensions of the occurrence that it replaces. -/
theorem under_toRef (p : TypeParam) (d : Dims) :
    p.toRef.under d = .param p.var p.upper p.lower d := by
  simp [under, TypeParam.toRef, withDims, dims, Dims.around, Dims.scalar]

/-- Renames every variable of a reference, those in bounds included. -/
def mapVars (f : TypeVar → TypeVar) (t : TypeRef) : TypeRef :=
  t.rewrite fun p => some (TypeParam.toRef ⟨f p.var, p.upper, p.lower⟩)

theorem mapVars_declared (f : TypeVar → TypeVar) (name : DeclaredName) (args : List TypeRef)
    (dims : Dims) :
    mapVars f (.declared name args dims) = .declared name (args.map (mapVars f)) dims :=
  rewrite_declared _ name args dims

theorem mapVars_param (f : TypeVar → TypeVar) (var : TypeVar) (upper : List TypeRef)
    (lower : Option TypeRef) (dims : Dims) :
    mapVars f (.param var upper lower dims) =
      .param (f var) (upper.map (mapVars f)) (lower.map (mapVars f)) dims := by
  unfold mapVars
  rw [rewrite_param]
  exact under_toRef _ dims

/-- A rewriting that either renames a variable or leaves it alone is a renaming. -/
theorem rewrite_eq_mapVars {g : TypeParam → Option TypeRef} {f : TypeVar → TypeVar}
    (h : ∀ p, g p = some (TypeParam.toRef ⟨f p.var, p.upper, p.lower⟩) ∨
      g p = none ∧ f p.var = p.var) (t : TypeRef) : t.rewrite g = t.mapVars f := by
  induction t with
  | declared name args dims ih =>
      rw [rewrite_declared, mapVars_declared, List.map_congr_left ih]
  | param var upper lower dims ihu ihl =>
      have hl : lower.map (rewrite g) = lower.map (mapVars f) := by
        cases lower with
        | none => rfl
        | some t => exact congrArg some (ihl t rfl)
      rw [rewrite_param, mapVars_param, List.map_congr_left ihu, hl]
      rcases h ⟨var, upper.map (mapVars f), lower.map (mapVars f)⟩ with hg | ⟨hg, hf⟩
      · rw [hg]
        exact under_toRef _ dims
      · rw [hg, hf]

/-- **Renaming twice is renaming by the composite.** -/
theorem mapVars_mapVars (f g : TypeVar → TypeVar) (t : TypeRef) :
    (t.mapVars f).mapVars g = t.mapVars (g ∘ f) := by
  induction t with
  | declared name args dims ih =>
      rw [mapVars_declared, mapVars_declared, mapVars_declared, List.map_map]
      exact congrArg (TypeRef.declared name · dims) (List.map_congr_left ih)
  | param var upper lower dims ihu ihl =>
      have hu : (upper.map (mapVars f)).map (mapVars g) = upper.map (mapVars (g ∘ f)) := by
        rw [List.map_map]
        exact List.map_congr_left ihu
      have hl : (lower.map (mapVars f)).map (mapVars g) = lower.map (mapVars (g ∘ f)) := by
        cases lower with
        | none => rfl
        | some t => exact congrArg some (ihl t rfl)
      rw [mapVars_param, mapVars_param, mapVars_param, hu, hl]
      rfl

/-! ## The renamings in use -/

theorem normalized_eq_mapVars (t : TypeRef) : t.normalized = t.mapVars TypeVar.erased := by
  refine rewrite_eq_mapVars (fun p => ?_) t
  obtain ⟨⟨name, qualifier⟩, upper, lower⟩ := p
  cases qualifier with
  | none => exact Or.inr ⟨rfl, rfl⟩
  | some q => exact Or.inl rfl

theorem requalify_eq_mapVars (t : TypeRef) (old new : String) :
    t.requalify old new = t.mapVars (TypeVar.requalify old new) := by
  refine rewrite_eq_mapVars (fun p => ?_) t
  unfold TypeVar.requalify
  by_cases hq : p.var.qualifier = some old
  · rw [if_pos hq, if_pos hq]
    exact Or.inl rfl
  · rw [if_neg hq, if_neg hq]
    exact Or.inr ⟨rfl, rfl⟩

/-- **A change of qualifier cannot be seen in the normalized form.** -/
theorem normalized_requalify (t : TypeRef) (old new : String) :
    (t.requalify old new).normalized = t.normalized := by
  rw [requalify_eq_mapVars, normalized_eq_mapVars, normalized_eq_mapVars, mapVars_mapVars]
  -- two renamings are equal if they are on each variable
  congr 1
  funext v
  exact TypeVar.erased_requalify old new v

end TypeRef

/-! ## Methods and traits -/

namespace TraitMethod

/-- **The signature that decides which methods are one is the same under every qualifier.** -/
theorem key_requalify (m : TraitMethod) (old new : String) :
    (m.requalify old new).key = m.key := by
  have hmap : ∀ ts : List TypeRef,
      (ts.map (·.requalify old new)).map TypeRef.normalized = ts.map TypeRef.normalized := by
    intro ts
    rw [List.map_map]
    exact List.map_congr_left (fun t _ => TypeRef.normalized_requalify t old new)
  have hparams : (m.params.map fun p => (⟨p.type.requalify old new, p.name⟩ : Parameter)).map
      Parameter.type = (m.params.map (·.type)).map (·.requalify old new) := by
    rw [List.map_map, List.map_map]
    rfl
  unfold key signature Signature.normalized requalify
  simp only [TypeRef.normalized_requalify, hmap, hparams]

end TraitMethod

namespace Trait

/-- The two traits are one, up to the qualifier that it stands under. -/
def Requalified (t u : Trait) : Prop := u = t ∨ ∃ q, u = t.requalify q

theorem Requalified.name {t u : Trait} (h : Requalified t u) : u.name = t.name := by
  rcases h with rfl | ⟨q, rfl⟩ <;> rfl

theorem Requalified.qualifiedName {t u : Trait} (h : Requalified t u) :
    u.qualifiedName = t.qualifiedName := congrArg DeclaredName.qualified h.name

/-- What of the methods does not depend on the qualifier: signatures and kinds. -/
def outline (t : Trait) : List (Signature × MethodKind) := t.methods.map fun m => (m.key, m.kind)

theorem Requalified.outline {t u : Trait} (h : Requalified t u) : u.outline = t.outline := by
  rcases h with rfl | ⟨q, rfl⟩
  · rfl
  · unfold Trait.outline requalify
    rw [List.map_map]
    exact List.map_congr_left (fun m _ => Prod.ext (m.key_requalify _ _) rfl)

theorem map_fst_outline (t : Trait) : t.outline.map Prod.fst = t.methods.map (·.key) := by
  unfold outline
  rw [List.map_map]
  rfl

theorem Requalified.map_key {t u : Trait} (h : Requalified t u) :
    u.methods.map (·.key) = t.methods.map (·.key) := by
  rw [← map_fst_outline, ← map_fst_outline, h.outline]

end Trait

end TraitWeaver
