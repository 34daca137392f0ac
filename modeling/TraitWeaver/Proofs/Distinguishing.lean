import TraitWeaver.Proofs.FreshName
import TraitWeaver.Proofs.HostResolution

/-!
# How a host numbers qualifiers

A host may compose several traits of one simple name. The first of them keeps the
name as its qualifier, the others get numbers. What makes this delicate is that a
simple name may look like a numbered one: with `Box`, another `Box` and `Box2`, the
second one cannot become `Box2`, although the loop comes to it before it has seen any
trait that is called so.

So the loop starts with the qualifiers of *all* traits as taken. Two things are then
known after any number of steps (`Distinguishing`):

* what is taken is what some trait began with, or has by now;
* of the qualifiers that the traits began with, those in use are the ones that have
  come up so far. A numbered qualifier is never one of them.

By the second, whether a trait keeps its qualifier depends only on whether the
qualifier has come up before.
-/

namespace TraitWeaver

namespace Trait

/-- Where the loop stands after some traits: `all` are the qualifiers that all traits began with,
`seen` those of the traits that it has come to. -/
structure Distinguishing (all seen : List String) (before : List Trait) (taken : List String) :
    Prop where
  taken_iff : ∀ q, q ∈ taken ↔ q ∈ all ++ before.map (·.qualifier)
  seen_iff : ∀ q ∈ all, q ∈ before.map (·.qualifier) ↔ q ∈ seen
  nodup : (before.map (·.qualifier)).Nodup

/-- What becomes of a trait behind others: it keeps its qualifier if that has not come up, and else
gets the least number that no trait has or had. -/
structure Renumbered (all seen : List String) (before : List Trait) (t u : Trait) : Prop where
  keeps : t.qualifier ∉ seen → u = t
  numbers : t.qualifier ∈ seen →
    ∃ n, Text.LeastFree (all ++ before.map (·.qualifier)) t.qualifier n
      ∧ u = t.requalify s!"{t.qualifier}{n}"

theorem any_qualifier_iff {before : List Trait} {q : String} :
    before.any (·.qualifier = q) = true ↔ q ∈ before.map (·.qualifier) := by
  rw [List.any_eq_true, List.mem_map]
  exact exists_congr fun u => and_congr_right fun _ => decide_eq_true_iff

theorem nodup_snoc_qualifier {before : List Trait} {u : Trait}
    (h : (before.map (·.qualifier)).Nodup) (hu : u.qualifier ∉ before.map (·.qualifier)) :
    ((before ++ [u]).map (·.qualifier)).Nodup := by
  rw [List.map_append]
  refine List.nodup_append.mpr ⟨h, List.nodup_singleton _, fun q hq q' hq' he => hu ?_⟩
  have hq' : q' = u.qualifier := List.mem_singleton.mp hq'
  exact (he.trans hq') ▸ hq

namespace Distinguishing

variable {all seen taken : List String} {before : List Trait} {t : Trait}

/-- A trait whose qualifier has not come up is taken in as it is. -/
theorem keep (h : Distinguishing all seen before taken) (ht : t.qualifier ∈ all)
    (hseen : t.qualifier ∉ seen) :
    Distinguishing all (seen ++ [t.qualifier]) (before ++ [t]) taken where
  taken_iff := by
    intro q
    rw [h.taken_iff, List.map_append, ← List.append_assoc, List.mem_append (s := _ ++ _)]
    refine (or_iff_left_of_imp fun hq => ?_).symm
    rw [List.mem_singleton.mp hq]
    exact List.mem_append_left _ ht
  seen_iff := by
    intro q hq
    rw [List.map_append, List.mem_append, List.mem_append, h.seen_iff q hq]
    rfl
  nodup := nodup_snoc_qualifier h.nodup (mt (h.seen_iff _ ht).mp hseen)

/-- Any other trait is taken in under a qualifier that is not taken. -/
theorem number (h : Distinguishing all seen before taken) (hseen : t.qualifier ∈ seen)
    {new : String} (hnew : new ∉ taken) :
    Distinguishing all (seen ++ [t.qualifier]) (before ++ [t.requalify new]) (taken ++ [new]) := by
  have hfree := mt (h.taken_iff _).mpr hnew
  rw [List.mem_append, not_or] at hfree
  refine ⟨fun q => ?_, fun q hq => ?_, nodup_snoc_qualifier h.nodup hfree.2⟩
  · rw [List.map_append, ← List.append_assoc, List.mem_append, List.mem_append, h.taken_iff]
    rfl
  · -- the new qualifier is none that a trait began with, and the old one had come up already
    have hne : q ∉ [t.requalify new].map (·.qualifier) := by
      intro he
      have he : q = new := List.mem_singleton.mp he
      exact hfree.1 (he ▸ hq)
    have hold : q ∈ [t.qualifier] → q ∈ seen := fun he => List.mem_singleton.mp he ▸ hseen
    rw [List.map_append, List.mem_append, List.mem_append, h.seen_iff q hq, or_iff_left hne,
      or_iff_left_of_imp hold]

/-- **One step**: the trait is put behind the others, renumbered. -/
theorem exists_step (h : Distinguishing all seen before taken) (ht : t.qualifier ∈ all) :
    ∃ u taken', distinguish (before, taken) t = (before ++ [u], taken')
      ∧ Renumbered all seen before t u
      ∧ Distinguishing all (seen ++ [t.qualifier]) (before ++ [u]) taken' := by
  have hany : before.any (·.qualifier = t.qualifier) = true ↔ t.qualifier ∈ seen :=
    any_qualifier_iff.trans (h.seen_iff _ ht)
  unfold distinguish
  dsimp only
  by_cases hseen : t.qualifier ∈ seen
  · rw [if_pos (hany.mpr hseen)]
    have htaken : t.qualifier ∈ taken := (h.taken_iff _).mpr (List.mem_append_left _ ht)
    obtain ⟨n, hn, he⟩ := Text.exists_leastFree_freshNumbered htaken
    rw [he]
    refine ⟨_, _, rfl, ⟨fun hno => absurd hseen hno, fun _ => ⟨n, ?_, rfl⟩⟩, ?_⟩
    · exact hn.congr h.taken_iff
    · exact h.number hseen hn.free
  · rw [if_neg (mt hany.mp hseen)]
    exact ⟨_, _, rfl, ⟨fun _ => rfl, fun hyes => absurd hyes hseen⟩, h.keep ht hseen⟩

/-- **Any number of steps.** -/
theorem exists_run {ts : List Trait} (h : Distinguishing all seen before taken)
    (hts : ∀ t ∈ ts, t.qualifier ∈ all) :
    ∃ us taken', ts.foldl distinguish (before, taken) = (before ++ us, taken')
      ∧ us.length = ts.length
      ∧ Distinguishing all (seen ++ ts.map (·.qualifier)) (before ++ us) taken' := by
  induction ts generalizing seen before taken with
  | nil => exact ⟨[], taken, by rw [List.append_nil]; rfl, rfl, by simpa using h⟩
  | cons t ts ih =>
      obtain ⟨ht, hts⟩ := List.forall_mem_cons.mp hts
      obtain ⟨u, taken₁, hstep, -, h₁⟩ := h.exists_step ht
      obtain ⟨us, taken₂, hrun, hlength, h₂⟩ := ih h₁ hts
      refine ⟨u :: us, taken₂, ?_, congrArg Nat.succ hlength, ?_⟩
      · rw [List.foldl_cons, hstep, hrun, ← List.append_cons]
      · rw [List.map_cons, List.append_cons, List.append_cons before]
        exact h₂

end Distinguishing

theorem distinguishing_nil (ts : List Trait) :
    Distinguishing (ts.map (·.qualifier)) [] [] (ts.map (·.qualifier)) where
  taken_iff := by
    intro q
    rw [List.map_nil, List.append_nil]
  seen_iff := fun _ _ => Iff.rfl
  nodup := List.nodup_nil

/-- **The traits of a host are under different qualifiers.** -/
theorem nodup_qualifier_distinguishAll (ts : List Trait) :
    ((distinguishAll ts).map (·.qualifier)).Nodup := by
  obtain ⟨us, taken, hrun, -, h⟩ :=
    (distinguishing_nil ts).exists_run fun t ht => List.mem_map_of_mem ht
  unfold distinguishAll
  rw [hrun]
  exact h.nodup

/-- **Where a trait stands in the list, there stands what becomes of it.** -/
theorem exists_distinguishAll_eq (before : List Trait) (t : Trait) (after : List Trait) :
    ∃ before' u after', distinguishAll (before ++ t :: after) = before' ++ u :: after'
      ∧ before'.length = before.length
      ∧ Renumbered ((before ++ t :: after).map (·.qualifier)) (before.map (·.qualifier)) before'
          t u := by
  have hall : ∀ s ∈ before ++ t :: after,
      s.qualifier ∈ (before ++ t :: after).map (·.qualifier) := fun s hs => List.mem_map_of_mem hs
  obtain ⟨hbefore, ht, -⟩ := (List.forall_mem_append.trans
    (and_congr_right fun _ => List.forall_mem_cons)).mp hall
  obtain ⟨before', taken, hrun, hlength, h⟩ := (distinguishing_nil _).exists_run hbefore
  obtain ⟨u, taken', hstep, hu, -⟩ := h.exists_step ht
  obtain ⟨after', -, hrest⟩ := foldl_distinguish_fst after ([] ++ before' ++ [u]) taken'
  refine ⟨before', u, after', ?_, hlength, hu⟩
  unfold distinguishAll
  rw [List.foldl_append, hrun, List.foldl_cons, hstep, hrest]
  simp

/-- The names and what of the methods does not depend on qualifiers stay as they are. -/
theorem map_outline_of_forall₂ {ts us : List Trait} (h : List.Forall₂ Requalified ts us) :
    us.map (·.outline) = ts.map (·.outline) := by
  induction h with
  | nil => rfl
  | cons hu _ ih => rw [List.map_cons, List.map_cons, hu.outline, ih]

/-- The traits `us` are the traits `ts`, told apart by their qualifiers. -/
structure ToldApart (ts us : List Trait) : Prop where
  nodup : (us.map (·.qualifier)).Nodup
  names : us.map (·.name) = ts.map (·.name)
  outlines : us.map (·.outline) = ts.map (·.outline)
  /-- The first trait of a simple name stays as it is. -/
  first : ∀ before t after, ts = before ++ t :: after →
    (∀ s ∈ before, s.name.simple ≠ t.name.simple) → us[before.length]? = some t
  /-- A later one gets the least number that no trait of the host begins with, and none before it
  has got. -/
  later : ∀ before t after, ts = before ++ t :: after →
    (∃ s ∈ before, s.name.simple = t.name.simple) →
      ∃ n, Text.LeastFree
          (ts.map (·.qualifier) ++ (us.take before.length).map (·.qualifier)) t.name.simple n
        ∧ us[before.length]? = some (t.requalify s!"{t.name.simple}{n}")

/-- **Traits under their simple names are told apart.** No two of them need to have different
qualified names for that. -/
theorem toldApart_distinguishAll (ts : List Trait) (hq : ∀ t ∈ ts, t.qualifier = t.name.simple) :
    ToldApart ts (distinguishAll ts) := by
  have hforall := forall₂_distinguishAll ts
  -- whether a qualifier has come up before is a question about simple names
  have hseen : ∀ before t after, ts = before ++ t :: after →
      (t.qualifier ∈ before.map (·.qualifier) ↔ ∃ s ∈ before, s.name.simple = t.name.simple) := by
    intro before t after hts
    have hbefore : ∀ s ∈ before, s.qualifier = s.name.simple := fun s hs =>
      hq s (hts ▸ List.mem_append_left _ hs)
    rw [hq t (hts ▸ List.mem_append_right _ List.mem_cons_self), List.mem_map]
    exact exists_congr fun s => and_congr_right fun hs => by rw [hbefore s hs]
  refine ⟨nodup_qualifier_distinguishAll ts, map_name_of_forall₂ hforall,
    map_outline_of_forall₂ hforall, ?_, ?_⟩
  · intro before t after hts hfirst
    obtain ⟨before', u, after', he, hlength, hu⟩ := exists_distinguishAll_eq before t after
    have hnot : t.qualifier ∉ before.map (·.qualifier) := by
      rw [hseen before t after hts]
      rintro ⟨s, hs, hst⟩
      exact hfirst s hs hst
    rw [hts, he, ← hu.keeps hnot, ← hlength]
    simp
  · intro before t after hts hlater
    obtain ⟨before', u, after', he, hlength, hu⟩ := exists_distinguishAll_eq before t after
    obtain ⟨n, hn, hun⟩ := hu.numbers ((hseen before t after hts).mpr hlater)
    have ht : t.qualifier = t.name.simple :=
      hq t (hts ▸ List.mem_append_right _ List.mem_cons_self)
    refine ⟨n, ?_, ?_⟩
    · rw [← ht, hts, he, ← hlength, List.take_left]
      exact hn
    · rw [← ht, ← hun, hts, he, ← hlength]
      simp

/-- Boxes whose simple names look like numbered ones. -/
def numberedBoxes : List Trait :=
  [("a", "Box"), ("a", "Box2"), ("b", "Box"), ("b", "Box2")].map fun (package, simple) =>
    { box package simple with type := ⟨⟨package, simple⟩, (box package simple).type.args⟩ }

theorem toldApart_numberedBoxes :
    (∀ t ∈ numberedBoxes, t.qualifier = t.name.simple)
      ∧ ToldApart numberedBoxes (distinguishAll numberedBoxes)
      ∧ (distinguishAll numberedBoxes).map (·.qualifier) = ["Box", "Box2", "Box3", "Box22"] :=
  have hq : ∀ t ∈ numberedBoxes, t.qualifier = t.name.simple := by decide +kernel
  ⟨hq, toldApart_distinguishAll numberedBoxes hq, by decide +kernel⟩

end Trait

end TraitWeaver
