import TraitWeaver.Proofs.EveryVariable
import TraitWeaver.Proofs.Positions

/-!
# The laws of qualifiers

A trait puts its variables under a qualifier, a host may move them to another one, and
what is compared in the end has none. No step may undo more than it should, whatever
order they come in: what was qualified is not qualified again, what was moved can be
moved back, and none of it shows in the normalized form.

All of these are renamings, so a law holds of a reference as soon as it holds of each
variable in it (`mapVars_mapVars_eq`). Two of the laws need that a qualifier is not in
use yet. Moving to one that is would make variables one that were not.

The normalized form must not forget anything else, either. `normalized_eq_iff` says that
references have the same one exactly if at all their positions there is the same, up to
a qualifier.
-/

namespace TraitWeaver

/-! ## One variable -/

namespace TypeVar

variable {v : TypeVar}

theorem erased_qualify (a : String) (v : TypeVar) : (v.qualify a).erased = v.erased := by
  unfold qualify
  split <;> rfl

/-- A variable takes a qualifier at most once. -/
theorem qualify_qualify (a b : String) (v : TypeVar) : (v.qualify a).qualify b = v.qualify a := by
  by_cases h : v.isWildcard || v.qualifier.isSome
  · have hself : ∀ q, v.qualify q = v := fun q => if_pos h
    rw [hself, hself]
  · have hqualified : v.qualify a = ⟨v.name, some a⟩ := if_neg h
    rw [hqualified]
    exact qualify_of_isSome rfl

/-- A variable that was not under the first qualifier is moved if it was put under it. -/
theorem requalify_qualify {a : String} (h : v.qualifier ≠ some a) (b : String) :
    (v.qualify a).requalify a b = v.qualify b := by
  unfold qualify
  split
  · exact if_neg h
  · exact if_pos rfl

end TypeVar

namespace TypeRef

/-! ## One reference -/

/-- **Two renamings come to a third** if they do on every variable that occurs. -/
theorem mapVars_mapVars_eq {f g k : TypeVar → TypeVar} {t : TypeRef}
    (h : t.Every fun v => g (f v) = k v) : (t.mapVars f).mapVars g = t.mapVars k :=
  (mapVars_mapVars f g t).trans (mapVars_eq_mapVars h)

/-- What qualifying a reference, moving it and normalizing it have to do with each other. -/
structure QualifierLaws (t : TypeRef) (a b : String) : Prop where
  normalized_normalized : t.normalized.normalized = t.normalized
  normalized_qualify : (t.qualify a).normalized = t.normalized
  normalized_requalify : (t.requalify a b).normalized = t.normalized
  /-- What is qualified already keeps its qualifier. -/
  qualify_qualify : (t.qualify a).qualify b = t.qualify a
  /-- Moving makes up for the wrong qualifier, if it was not in use before. -/
  requalify_qualify : t.Every (·.qualifier ≠ some a) → (t.qualify a).requalify a b = t.qualify b
  /-- What is moved to a qualifier that was not in use can be moved back. -/
  requalify_back : t.Every (·.qualifier ≠ some b) → (t.requalify a b).requalify b a = t

theorem qualifierLaws (t : TypeRef) (a b : String) : t.QualifierLaws a b where
  normalized_normalized := by
    rw [normalized_eq_mapVars, normalized_eq_mapVars]
    exact mapVars_mapVars_eq fun _ _ => rfl
  normalized_qualify := by
    rw [qualify_eq_mapVars, normalized_eq_mapVars, normalized_eq_mapVars]
    exact mapVars_mapVars_eq fun p _ => TypeVar.erased_qualify a p.var
  normalized_requalify := normalized_requalify t a b
  qualify_qualify := by
    rw [qualify_eq_mapVars, qualify_eq_mapVars]
    exact mapVars_mapVars_eq fun p _ => TypeVar.qualify_qualify a b p.var
  requalify_qualify h := by
    rw [qualify_eq_mapVars, qualify_eq_mapVars, requalify_eq_mapVars]
    exact mapVars_mapVars_eq (h.mono fun _ hv => TypeVar.requalify_qualify hv b)
  requalify_back h := by
    rw [requalify_eq_mapVars, requalify_eq_mapVars, mapVars_mapVars]
    exact mapVars_eq_self (h.mono fun _ hv => TypeVar.requalify_requalify fun hb => absurd hb hv)

/-! ## What normalizing forgets -/

/-- The same declared type, or variables of the same name, under the same dimensions. -/
inductive Root.SameButQualifier : Root → Root → Prop
  | declared (name : DeclaredName) (dims : Dims) :
    SameButQualifier (.declared name dims) (.declared name dims)
  | param (name : String) (q q' : Option String) (dims : Dims) :
    SameButQualifier (.param ⟨name, q⟩ dims) (.param ⟨name, q'⟩ dims)

theorem Root.mapVar_erased_eq_iff {r r' : Root} :
    r.mapVar .erased = r'.mapVar .erased ↔ r.SameButQualifier r' := by
  refine ⟨fun h => ?_, fun h => ?_⟩
  · cases r with
    | declared name dims =>
        cases r' with
        | declared name' dims' =>
            obtain ⟨rfl, rfl⟩ := Root.declared.inj h
            exact .declared name dims
        | param => cases h
    | param var dims =>
        cases r' with
        | declared => cases h
        | param var' dims' =>
            obtain ⟨hvar, rfl⟩ := Root.param.inj h
            obtain ⟨name, q⟩ := var
            obtain ⟨name', q'⟩ := var'
            obtain rfl : name = name' := congrArg TypeVar.name hvar
            exact .param name q q' dims
  · cases h with
    | declared | param => rfl

/-- **Normalizing forgets qualifiers and nothing else.** -/
theorem normalized_eq_iff {t u : TypeRef} :
    t.normalized = u.normalized ↔ t.Matches Root.SameButQualifier u := by
  rw [normalized_eq_mapVars, normalized_eq_mapVars, ← matches_eq_iff, matches_mapVars_iff]
  simp only [Root.mapVar_erased_eq_iff]

end TypeRef

theorem Signature.normalized_eq_iff {s s' : Signature} :
    s.normalized = s'.normalized ↔ s.Matches TypeRef.Root.SameButQualifier s' := by
  have hall : ∀ ts us : List TypeRef, ts.map (·.normalized) = us.map (·.normalized) ↔
      List.Forall₂ (TypeRef.Matches TypeRef.Root.SameButQualifier) ts us := by
    intro ts us
    rw [← List.forall₂_eq_eq_eq, List.forall₂_map_left_iff, List.forall₂_map_right_iff]
    simp only [TypeRef.normalized_eq_iff]
  unfold normalized
  rw [Signature.mk.injEq, hall, hall, TypeRef.normalized_eq_iff, Signature.matches_iff]

/-- **The laws of qualifiers**: how the operations on them compose, and that normalized forms are
equal exactly for what differs in qualifiers at most. -/
theorem qualifier_laws : (∀ (t : TypeRef) (a b : String), t.QualifierLaws a b) ∧
    (∀ t u : TypeRef, t.normalized = u.normalized ↔ t.Matches TypeRef.Root.SameButQualifier u) ∧
    ∀ s s' : Signature,
      s.normalized = s'.normalized ↔ s.Matches TypeRef.Root.SameButQualifier s' :=
  ⟨TypeRef.qualifierLaws, fun _ _ => TypeRef.normalized_eq_iff,
    fun _ _ => Signature.normalized_eq_iff⟩

/-- In `Map<T[], ? extends V>` only `V` has a qualifier, so `T` can be put under another one, moved
to a third and moved back, and `V` and the wildcard stay as they are. -/
theorem qualifier_laws_map :
    let map : TypeRef := .declared ⟨"java.util", "Map"⟩
      [.param (.plain "T") [] none ⟨1, false⟩,
        .param (.plain TypeVar.wildcardName) [.param ⟨"V", some "Store"⟩ [] none .scalar] none
          .scalar] .scalar
    let shelved : TypeRef := .declared ⟨"java.util", "Map"⟩
      [.param ⟨"T", some "Shelf"⟩ [] none ⟨1, false⟩,
        .param (.plain TypeVar.wildcardName) [.param ⟨"V", some "Store"⟩ [] none .scalar] none
          .scalar] .scalar
    map.Every (·.qualifier ≠ some "Rack") ∧ map.qualify "Shelf" = shelved ∧
      (map.qualify "Rack").requalify "Rack" "Shelf" = shelved ∧
      shelved.Every (·.qualifier ≠ some "Rack") ∧
      (shelved.requalify "Shelf" "Rack").requalify "Rack" "Shelf" = shelved ∧
      shelved.Matches TypeRef.Root.SameButQualifier map := by
  intro map shelved
  have hmap : map.Every (·.qualifier ≠ some "Rack") := by
    unfold TypeRef.Every
    decide
  have hshelved : shelved.Every (·.qualifier ≠ some "Rack") := by
    unfold TypeRef.Every
    decide
  have hqualify : map.qualify "Shelf" = shelved := by decide
  refine ⟨hmap, hqualify, ?_, hshelved, ?_, ?_⟩
  · rw [← hqualify]
    exact (qualifier_laws.1 map "Rack" "Shelf").requalify_qualify hmap
  · exact (qualifier_laws.1 shelved "Shelf" "Rack").requalify_back hshelved
  · exact (qualifier_laws.2.1 shelved map).mp (by decide)

end TraitWeaver
