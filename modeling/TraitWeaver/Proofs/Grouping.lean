import Mathlib.Data.List.Nodup
import TraitWeaver.Composition

/-!
# Grouping loses, duplicates and misplaces nothing

`MethodGroup.ofTraits` goes once over all contributions and puts each into the
group of its signature, which it searches for from the front. What comes out is
meant to be the obvious thing: one group for each signature that occurs, holding
the contributions of that signature in the order in which they were found.

The loop only ever appends — to a group or to the list of groups — so its
invariant is stated against the contributions *seen so far*:

* each group holds exactly those of its signature, in their order;
* no two groups have one signature, and no signature seen is without a group;
* the first entries of the groups stand in the order in which they were seen.

A method is told apart from all others by its *place*, the position of its trait
together with its own position there. Two methods of a trait may well be equal in
everything else.
-/

namespace TraitWeaver

namespace Contribution

/-- The position of the trait, and the position of the method in the trait. -/
def place (c : Contribution) : Nat × Nat := (c.position, c.methodPosition)

/-- The contribution is what stands at its place in a list of traits. -/
def IsFrom (c : Contribution) (traits : List Trait) : Prop :=
  traits[c.position]? = some c.owner ∧ c.owner.methods[c.methodPosition]? = some c.method
    ∧ c.method.isContributed

/-- By the position of the trait, then by the position of the method. -/
def Before (c d : Contribution) : Prop :=
  c.position < d.position ∨ c.position = d.position ∧ c.methodPosition < d.methodPosition

theorem Before.ne_place {c d : Contribution} (h : c.Before d) : c.place ≠ d.place := by
  intro he
  obtain ⟨hp, hm⟩ := Prod.mk.inj he
  rcases h with h | ⟨_, h⟩
  · omega
  · omega

theorem Before.trans {c d e : Contribution} (h : c.Before d) (h' : d.Before e) : c.Before e := by
  unfold Before at h h' ⊢
  omega

end Contribution

/-! ## The contributions of a list of traits -/

theorem pairwise_zipIdx {α : Type} (l : List α) :
    l.zipIdx.Pairwise fun a b => a.2 < b.2 := by
  have h : (l.zipIdx.map Prod.snd).Pairwise (· < ·) := by
    rw [List.zipIdx_map_snd]
    exact List.pairwise_lt_range'
  exact List.pairwise_map.mp h

namespace Trait

theorem mem_contributionsAt {owner : Trait} {position : Nat} {c : Contribution} :
    c ∈ owner.contributionsAt position ↔
      c.position = position ∧ c.owner = owner
        ∧ owner.methods[c.methodPosition]? = some c.method ∧ c.method.isContributed := by
  unfold contributionsAt
  simp only [List.mem_map, List.mem_filter, Prod.exists]
  refine ⟨?_, ?_⟩
  · intro hall
    obtain ⟨m, j, ⟨hm, hc⟩, rfl⟩ := hall
    exact ⟨rfl, rfl, List.mem_zipIdx_iff_getElem?.mp hm, hc⟩
  · intro hall
    obtain ⟨rfl, rfl, hm, hc⟩ := hall
    exact ⟨c.method, c.methodPosition, ⟨List.mem_zipIdx_iff_getElem?.mpr hm, hc⟩, rfl⟩

/-- Exactly the contributed methods are listed. -/
theorem mem_contributions {traits : List Trait} {c : Contribution} :
    c ∈ contributions traits ↔ c.IsFrom traits := by
  unfold contributions
  simp only [List.mem_flatMap, Prod.exists]
  refine ⟨?_, ?_⟩
  · intro hall
    obtain ⟨owner, i, ht, hc⟩ := hall
    obtain ⟨rfl, rfl, hm, hk⟩ := mem_contributionsAt.mp hc
    exact ⟨List.mem_zipIdx_iff_getElem?.mp ht, hm, hk⟩
  · intro hall
    obtain ⟨ht, hm, hk⟩ := hall
    exact ⟨c.owner, c.position, List.mem_zipIdx_iff_getElem?.mpr ht,
      mem_contributionsAt.mpr ⟨rfl, rfl, hm, hk⟩⟩

theorem pairwise_contributions (traits : List Trait) :
    (contributions traits).Pairwise Contribution.Before := by
  unfold contributions
  refine List.pairwise_flatMap.mpr ⟨?_, ?_⟩
  · intro ⟨owner, position⟩ _
    -- within one trait, by the numbers that its methods have
    refine List.pairwise_map.mpr ((pairwise_zipIdx owner.methods).filter _ |>.imp ?_)
    intro a b hab
    exact Or.inr ⟨rfl, hab⟩
  · refine (pairwise_zipIdx traits).imp ?_
    intro a b hab c hc d hd
    have hcp := (mem_contributionsAt.mp hc).1
    have hdp := (mem_contributionsAt.mp hd).1
    exact Or.inl (by omega)

end Trait

namespace MethodGroup

/-! ## One step of the loop -/

def push (g : MethodGroup) (c : Contribution) : MethodGroup := { g with others := g.others ++ [c] }

theorem entries_push (g : MethodGroup) (c : Contribution) :
    (g.push c).entries = g.entries ++ [c] := rfl

theorem addTo_of_not_mem {groups : List MethodGroup} {c : Contribution} {s : Signature}
    (h : s ∉ groups.map (·.signature)) : addTo groups c s = groups ++ [⟨s, c, []⟩] := by
  induction groups with
  | nil => rfl
  | cons g rest ih =>
      have hg : g.signature ≠ s := fun he => h (he ▸ List.mem_cons_self)
      have hrest : s ∉ rest.map (·.signature) := fun hm => h (List.mem_cons_of_mem _ hm)
      rw [addTo, if_neg hg, ih hrest]
      rfl

/-- Where signatures are all different, the search from the front meets the only group there is. -/
theorem addTo_of_mem {groups : List MethodGroup} {c : Contribution} {s : Signature}
    (hd : (groups.map (·.signature)).Nodup) (h : s ∈ groups.map (·.signature)) :
    addTo groups c s = groups.map fun g => if g.signature = s then g.push c else g := by
  induction groups with
  | nil => exact absurd h List.not_mem_nil
  | cons g rest ih =>
      obtain ⟨hg, hrest⟩ := List.nodup_cons.mp hd
      rw [addTo, List.map_cons]
      by_cases hs : g.signature = s
      · -- the group is met: behind it, no other has the signature
        rw [if_pos hs, if_pos hs]
        have hid : rest.map (fun g => if g.signature = s then g.push c else g) = rest := by
          refine (List.map_congr_left (fun g' hg' => ?_)).trans (List.map_id rest)
          have hne : g'.signature ≠ s := by
            intro he
            exact hg (List.mem_map.mpr ⟨g', hg', he.trans hs.symm⟩)
          rw [if_neg hne, id]
        rw [hid]
        rfl
      · have hmem : s ∈ rest.map (·.signature) :=
          (List.mem_cons.mp h).resolve_left (fun he => hs he.symm)
        rw [if_neg hs, if_neg hs, ih hrest hmem]

/-- The invariant of the loop, over the contributions seen so far. -/
structure Grouped (seen : List Contribution) (groups : List MethodGroup) : Prop where
  /-- A group holds what has its signature. -/
  entries : ∀ g ∈ groups, g.entries = seen.filter (·.signature = g.signature)
  /-- There is at most one group for a signature. -/
  distinct : (groups.map (·.signature)).Nodup
  /-- There is a group for every signature seen. -/
  covered : ∀ c ∈ seen, c.signature ∈ groups.map (·.signature)
  /-- The groups stand in the order of their first entries. -/
  firsts : (groups.map (·.winner)).Sublist seen

theorem grouped_nil : Grouped [] [] where
  entries := by intro g hg; exact absurd hg List.not_mem_nil
  distinct := List.nodup_nil
  covered := by intro c hc; exact absurd hc List.not_mem_nil
  firsts := List.nil_sublist _

theorem filter_snoc_of_ne {seen : List Contribution} {c : Contribution} {s : Signature}
    (h : c.signature ≠ s) :
    (seen ++ [c]).filter (·.signature = s) = seen.filter (·.signature = s) := by
  rw [List.filter_append, List.filter_cons_of_neg (by simpa using h), List.filter_nil,
    List.append_nil]

theorem filter_snoc_of_eq {seen : List Contribution} {c : Contribution} {s : Signature}
    (h : c.signature = s) :
    (seen ++ [c]).filter (·.signature = s) = seen.filter (·.signature = s) ++ [c] := by
  rw [List.filter_append, List.filter_cons_of_pos (by simpa using h), List.filter_nil]

/-- **Adding a contribution keeps the invariant.** -/
theorem Grouped.add {seen : List Contribution} {groups : List MethodGroup}
    (h : Grouped seen groups) (c : Contribution) :
    Grouped (seen ++ [c]) (addTo groups c c.signature) := by
  by_cases hm : c.signature ∈ groups.map (·.signature)
  · -- the signature has been seen: its group grows by one, and no group changes its signature
    rw [addTo_of_mem h.distinct hm]
    have hsig : (groups.map fun g => if g.signature = c.signature then g.push c else g).map
        (·.signature) = groups.map (·.signature) := by
      rw [List.map_map]
      refine List.map_congr_left (fun g _ => ?_)
      show (if g.signature = c.signature then g.push c else g).signature = g.signature
      split <;> rfl
    have hwin : (groups.map fun g => if g.signature = c.signature then g.push c else g).map
        (·.winner) = groups.map (·.winner) := by
      rw [List.map_map]
      refine List.map_congr_left (fun g _ => ?_)
      show (if g.signature = c.signature then g.push c else g).winner = g.winner
      split <;> rfl
    refine ⟨?_, by rw [hsig]; exact h.distinct, ?_, ?_⟩
    · intro g' hg'
      obtain ⟨g, hg, rfl⟩ := List.mem_map.mp hg'
      by_cases hs : g.signature = c.signature
      · rw [if_pos hs, entries_push, h.entries g hg]
        exact (filter_snoc_of_eq hs.symm).symm
      · rw [if_neg hs, h.entries g hg]
        exact (filter_snoc_of_ne (Ne.symm hs)).symm
    · intro d hd
      rw [hsig]
      rcases List.mem_append.mp hd with hd | hd
      · exact h.covered d hd
      · exact List.mem_singleton.mp hd ▸ hm
    · rw [hwin]
      exact h.firsts.trans (List.sublist_append_left seen [c])
  · -- a new signature: its group holds nothing from before
    rw [addTo_of_not_mem hm]
    have hnone : seen.filter (·.signature = c.signature) = [] := by
      refine List.filter_eq_nil_iff.mpr (fun d hd hds => hm ?_)
      exact of_decide_eq_true hds ▸ h.covered d hd
    refine ⟨?_, ?_, ?_, ?_⟩
    · intro g hg
      rcases List.mem_append.mp hg with hg | hg
      · have hs : c.signature ≠ g.signature := by
          intro he
          exact hm (List.mem_map.mpr ⟨g, hg, he.symm⟩)
        rw [h.entries g hg]
        exact (filter_snoc_of_ne hs).symm
      · obtain rfl := List.mem_singleton.mp hg
        rw [filter_snoc_of_eq rfl, hnone]
        rfl
    · rw [List.map_append]
      refine List.nodup_append.mpr ⟨h.distinct, List.nodup_singleton _, ?_⟩
      intro s hs s' hs' he
      rw [he, List.mem_singleton.mp hs'] at hs
      exact hm hs
    · intro d hd
      rw [List.map_append]
      rcases List.mem_append.mp hd with hd | hd
      · exact List.mem_append_left _ (h.covered d hd)
      · rw [List.mem_singleton.mp hd]
        exact List.mem_append_right _ List.mem_cons_self
    · rw [List.map_append]
      exact h.firsts.append (List.Sublist.refl _)

theorem Grouped.addAll {seen : List Contribution} {groups : List MethodGroup}
    (h : Grouped seen groups) (cs : List Contribution) :
    Grouped (seen ++ cs) (cs.foldl (fun groups c => addTo groups c c.signature) groups) := by
  induction cs generalizing seen groups with
  | nil =>
      rw [List.append_nil]
      exact h
  | cons c cs ih =>
      have := ih (h.add c)
      rwa [List.append_assoc] at this

/-- **The groups of some traits, over all of their contributions.** -/
theorem grouped_ofTraits (traits : List Trait) :
    Grouped (Trait.contributions traits) (ofTraits traits) :=
  grouped_nil.addAll (Trait.contributions traits)

/-! ## What the invariant says at the end -/

namespace Grouped

variable {seen : List Contribution} {groups : List MethodGroup}

theorem mem_entries (h : Grouped seen groups) {g : MethodGroup} (hg : g ∈ groups)
    {c : Contribution} : c ∈ g.entries ↔ c ∈ seen ∧ c.signature = g.signature := by
  rw [h.entries g hg, List.mem_filter, decide_eq_true_iff]

end Grouped

theorem winner_mem_entries (g : MethodGroup) : g.winner ∈ g.entries := List.mem_cons_self

/-- In the groups of some traits, the first entry is before all others. -/
theorem pairwise_entries_ofTraits {traits : List Trait} {g : MethodGroup}
    (hg : g ∈ ofTraits traits) : g.entries.Pairwise Contribution.Before := by
  rw [(grouped_ofTraits traits).entries g hg]
  exact (Trait.pairwise_contributions traits).filter _

end MethodGroup

end TraitWeaver
