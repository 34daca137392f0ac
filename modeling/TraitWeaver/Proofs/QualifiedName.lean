import TraitWeaver.Proofs.Distinguishing
import TraitWeaver.Proofs.TraitScope

/-!
# Names under a qualifier

On a host, parameters and constants of several traits are told apart by their
names under the qualifiers of the traits, put together with an underscore. Two
things are known of such names:

* the traits of a host have different qualifiers (`nodup_qualifier_of_resolve`);
* all parameters of a trait are under its qualifier (`qualifier_of_mem_typeParams`).

That is not enough to keep the names apart. An underscore may also stand in a
qualifier or in a name, and then it cannot be told where one ends and the other
begins. `Text.qualified_eq_iff` says when two names under qualifiers are written
alike, and there is exactly one way for qualifiers that are different.
-/

namespace TraitWeaver

namespace Text

/-- One of the qualifiers goes on into the other one's name: what is between them can be read as the
end of the longer qualifier and as the beginning of the longer name. -/
def Overlap (q name r other : String) : Prop :=
  (∃ between : String, r = s!"{q}_{between}" ∧ name = s!"{between}_{other}")
    ∨ ∃ between : String, q = s!"{r}_{between}" ∧ other = s!"{between}_{name}"

theorem toList_qualified (q name : String) :
    (s!"{q}_{name}").toList = q.toList ++ '_' :: name.toList := by
  simp [String.toList_append, toString]

/-- What stands before an underscore, where the whole can also be read in another way. -/
theorem exists_between {q name r other : String} {rest : List Char}
    (hq : r.toList = q.toList ++ rest)
    (hname : '_' :: name.toList = rest ++ '_' :: other.toList) :
    (q = r ∧ name = other)
      ∨ ∃ between : String, r = s!"{q}_{between}" ∧ name = s!"{between}_{other}" := by
  cases rest with
  | nil =>
      rw [List.append_nil] at hq
      exact Or.inl ⟨String.toList_injective hq.symm, String.toList_injective (List.cons.inj hname).2⟩
  | cons a between =>
      obtain ⟨rfl, htail⟩ : '_' = a ∧ name.toList = between ++ '_' :: other.toList :=
        List.cons.inj hname
      refine Or.inr ⟨String.ofList between, String.toList_injective ?_, String.toList_injective ?_⟩
      · rw [hq, toList_qualified, String.toList_ofList]
      · rw [toList_qualified, String.toList_ofList]
        exact htail

/-- **Names under qualifiers are written alike only if they are the same or overlap.** -/
theorem qualified_eq_iff {q name r other : String} :
    s!"{q}_{name}" = s!"{r}_{other}" ↔ (q = r ∧ name = other) ∨ Overlap q name r other := by
  refine ⟨fun h => ?_, ?_⟩
  · have hchars := String.toList_inj.mpr h
    rw [toList_qualified, toList_qualified] at hchars
    rcases List.append_eq_append_iff.mp hchars with ⟨rest, hq, hname⟩ | ⟨rest, hq, hname⟩
    · exact (exists_between hq hname).imp_right Or.inl
    · rcases exists_between hq hname with ⟨rfl, rfl⟩ | hbetween
      · exact Or.inl ⟨rfl, rfl⟩
      · exact Or.inr (Or.inr hbetween)
  · rintro (⟨rfl, rfl⟩ | ⟨between, rfl, rfl⟩ | ⟨between, rfl, rfl⟩)
    · rfl
    · simp [toString, String.append_assoc]
    · simp [toString, String.append_assoc]

/-- A qualifier does not go on into itself. -/
theorem not_overlap_self (q name other : String) : ¬Overlap q name q other := by
  have hlonger : ∀ between : String, q ≠ s!"{q}_{between}" := by
    intro between h
    have hlength := congrArg List.length (String.toList_inj.mpr h)
    rw [toList_qualified, List.length_append, List.length_cons] at hlength
    omega
  rintro (⟨between, h, -⟩ | ⟨between, h, -⟩)
  · exact hlonger between h
  · exact hlonger between h

/-- Under one qualifier, names stay apart. -/
theorem qualified_right_inj {q name other : String} :
    s!"{q}_{name}" = s!"{q}_{other}" ↔ name = other := by
  rw [qualified_eq_iff]
  refine ⟨?_, fun h => Or.inl ⟨rfl, h⟩⟩
  rintro (h | h)
  · exact h.2
  · exact absurd h (not_overlap_self q name other)

end Text

/-! ## The qualifiers of a host -/

namespace Trait

/-- Every parameter of the trait is under the trait's qualifier. -/
def Qualified (t : Trait) : Prop := ∀ p ∈ t.typeParams, p.var.qualifier = some t.qualifier

theorem IsResolved.qualified {t : Trait} (h : t.IsResolved) : t.Qualified := by
  obtain ⟨d, c, ds, hr⟩ := h
  intro p hp
  obtain ⟨_, -, hres⟩ := exists_rel_of_mem (TraitDecl.resolves_of_resolve hr).typeParams hp
  obtain ⟨_, -, -, rfl⟩ := TypeParamDecl.resolveIn_eq_ok_iff.mp hres
  rfl

theorem Requalified.qualified {t u : Trait} (hreq : Requalified t u) (h : t.Qualified) :
    u.Qualified := by
  rcases hreq with rfl | ⟨q, rfl⟩
  · exact h
  · intro p' hp'
    obtain ⟨p, hp, rfl⟩ := List.mem_map.mp hp'
    show (if p.var.qualifier = some t.qualifier then (⟨p.var.name, some q⟩ : TypeVar)
      else p.var).qualifier = some q
    rw [if_pos (h p hp)]

end Trait

namespace HostDecl

variable {index : TraitIndex} {d : HostDecl} {h : Host}

theorem nodup_qualifier_of_resolve (hr : (d.resolve index).1 = .ok h) :
    (h.traits.map (·.qualifier)).Nodup := by
  obtain ⟨_, found, _, _, -, -, -, -, -, rfl⟩ := resolve_eq_ok_iff.mp hr
  exact Trait.nodup_qualifier_distinguishAll found

/-- Different traits of a host have different qualifiers. -/
theorem qualifier_ne_of_resolve (hr : (d.resolve index).1 = .ok h) {t u : Trait}
    (ht : t ∈ h.traits) (hu : u ∈ h.traits) (hne : t ≠ u) : t.qualifier ≠ u.qualifier :=
  fun he => hne (List.inj_on_of_nodup_map (nodup_qualifier_of_resolve hr) ht hu he)

/-- **On a host, the parameters of a trait are under the trait's qualifier.** -/
theorem qualifier_of_mem_typeParams (hindex : ∀ t ∈ index.traits, t.IsResolved)
    (hr : (d.resolve index).1 = .ok h) {t : Trait} (ht : t ∈ h.traits) : t.Qualified := by
  obtain ⟨t₀, ht₀, hreq⟩ := exists_requalified_of_resolve hr ht
  exact hreq.qualified (hindex t₀ ht₀).qualified

end HostDecl

end TraitWeaver
