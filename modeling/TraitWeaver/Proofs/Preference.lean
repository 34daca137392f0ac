import TraitWeaver.Proofs.Grouping

/-!
# What a preference does to a group

A preference names a method and a trait. It is keyed by the *name* of the method
alone, so it reaches every overload at once, also groups that the preferred trait
has no part in. The only thing that it may do to a group is to bring one entry to
the front: the first that the preferred trait has there.

Written out, a group `before ++ c :: after` whose first entry of the preferred
trait is `c` becomes `c :: (before ++ after)`. Everything else — that the losers
keep their order, that nothing is lost, that a second pass changes nothing — is
read off that equation.
-/

namespace TraitWeaver

/-- The contribution is from the trait that the host prefers for methods of a name. -/
def Host.Prefers (h : Host) (name : String) (c : Contribution) : Prop :=
  h.preferred? name = some c.owner.qualifiedName

namespace MethodGroup

/-! ## One group -/

@[simp] theorem signature_prefer (g : MethodGroup) (trait : String) :
    (g.prefer trait).signature = g.signature := by
  unfold prefer
  dsimp only
  split <;> rfl

theorem prefer_eq_self {g : MethodGroup} {trait : String}
    (h : ∀ c ∈ g.entries, c.owner.qualifiedName ≠ trait) : g.prefer trait = g := by
  have hnone : g.entries.find? (fun c => decide (c.owner.qualifiedName = trait)) = none := by
    refine List.find?_eq_none.mpr (fun c hc => ?_)
    simpa using h c hc
  unfold prefer
  dsimp only
  rw [hnone]

/-- **The first entry of the preferred trait comes to the front; the others close ranks.** -/
theorem prefer_eq {g : MethodGroup} {trait : String} {before after : List Contribution}
    {c : Contribution} (he : g.entries = before ++ c :: after)
    (hbefore : ∀ d ∈ before, d.owner.qualifiedName ≠ trait)
    (hc : c.owner.qualifiedName = trait) :
    g.prefer trait = ⟨g.signature, c, before ++ after⟩ := by
  have hfind : g.entries.find? (fun c => decide (c.owner.qualifiedName = trait)) = some c := by
    refine List.find?_eq_some_iff_append.mpr ⟨decide_eq_true hc, before, after, he, ?_⟩
    intro d hd
    simpa using hbefore d hd
  have herase : g.entries.eraseP (fun c => decide (c.owner.qualifiedName = trait))
      = before ++ after := by
    rw [he, List.eraseP_append_right _ (fun d hd => by simpa using hbefore d hd),
      List.eraseP_cons_of_pos (by simpa using hc)]
  unfold prefer
  dsimp only
  rw [hfind]
  dsimp only
  rw [herase]

@[simp] theorem signature_settle (h : Host) (g : MethodGroup) :
    (g.settle h).signature = g.signature := by
  unfold settle
  split
  · rfl
  · exact signature_prefer g _

theorem settle_eq_self {h : Host} {g : MethodGroup}
    (hn : ∀ c ∈ g.entries, ¬ h.Prefers g.signature.name c) : g.settle h = g := by
  unfold settle
  split
  · rfl
  · rename_i trait ht
    refine prefer_eq_self (fun c hc he => hn c hc ?_)
    unfold Host.Prefers
    rw [ht, he]

theorem settle_eq {h : Host} {g : MethodGroup} {before after : List Contribution}
    {c : Contribution} (he : g.entries = before ++ c :: after)
    (hbefore : ∀ d ∈ before, ¬ h.Prefers g.signature.name d)
    (hc : h.Prefers g.signature.name c) :
    g.settle h = ⟨g.signature, c, before ++ after⟩ := by
  have ht : h.preferred? g.signature.name = some c.owner.qualifiedName := hc
  unfold settle
  rw [ht]
  refine prefer_eq he (fun d hd hdc => hbefore d hd ?_) rfl
  unfold Host.Prefers
  rw [ht, hdc]

/-- A group either has no entry of the preferred trait or a first one. -/
theorem prefers_cases (h : Host) (name : String) (entries : List Contribution) :
    (∀ c ∈ entries, ¬ h.Prefers name c) ∨
      ∃ before c after, entries = before ++ c :: after
        ∧ (∀ d ∈ before, ¬ h.Prefers name d) ∧ h.Prefers name c := by
  induction entries with
  | nil => exact Or.inl (fun c hc => absurd hc List.not_mem_nil)
  | cons d rest ih =>
      -- the first entry decides, or else the rest does
      by_cases hd : h.Prefers name d
      · exact Or.inr ⟨[], d, rest, rfl, fun e he => absurd he List.not_mem_nil, hd⟩
      · rcases ih with hnone | ⟨before, c, after, he, hbefore, hc⟩
        · exact Or.inl (List.forall_mem_cons.mpr ⟨hd, hnone⟩)
        · exact Or.inr ⟨d :: before, c, after, by rw [he]; rfl,
            List.forall_mem_cons.mpr ⟨hd, hbefore⟩, hc⟩

theorem entries_settle_perm (h : Host) (g : MethodGroup) :
    (g.settle h).entries.Perm g.entries := by
  rcases prefers_cases h g.signature.name g.entries with hn | ⟨before, c, after, he, hb, hc⟩
  · rw [settle_eq_self hn]
  · rw [settle_eq he hb hc, he]
    exact List.perm_middle.symm

/-- Which contribution wins a group of the host. -/
structure HasRightWinner (h : Host) (g : MethodGroup) : Prop where
  /-- It is one of those in the group. -/
  mem : g.winner ∈ g.entries
  /-- If the preferred trait has any there, it is the first that this trait has. -/
  preferred : (∃ c ∈ g.entries, h.Prefers g.signature.name c) →
    h.Prefers g.signature.name g.winner ∧
      ∀ c ∈ g.entries, h.Prefers g.signature.name c → c = g.winner ∨ g.winner.Before c
  /-- Else it is the first of the earliest trait. -/
  earliest : (∀ c ∈ g.entries, ¬ h.Prefers g.signature.name c) →
    ∀ c ∈ g.entries, c = g.winner ∨ g.winner.Before c

theorem eq_or_before_of_pairwise {c d : Contribution} {cs : List Contribution}
    (h : (c :: cs).Pairwise Contribution.Before) (hd : d ∈ c :: cs) : d = c ∨ c.Before d :=
  (List.mem_cons.mp hd).imp id (fun hm => (List.pairwise_cons.mp h).1 d hm)

/-- Settling a sorted group gives it the right winner. -/
theorem hasRightWinner_settle (h : Host) {g : MethodGroup}
    (hg : g.entries.Pairwise Contribution.Before) : HasRightWinner h (g.settle h) := by
  have hmem : ∀ c, c ∈ (g.settle h).entries ↔ c ∈ g.entries :=
    fun c => (entries_settle_perm h g).mem_iff
  refine ⟨winner_mem_entries _, ?_, ?_⟩
  · intro hall
    obtain ⟨e, he, hpe⟩ := hall
    rw [signature_settle] at hpe ⊢
    rcases prefers_cases h g.signature.name g.entries with hn | ⟨before, c, after, hsplit, hb, hc⟩
    · exact absurd hpe (hn e ((hmem e).mp he))
    · rw [settle_eq hsplit hb hc]
      refine ⟨hc, ?_⟩
      intro d hd hpd
      -- an entry of the preferred trait is not before `c`, so it stands in the sorted rest
      rw [← settle_eq hsplit hb hc, hmem d, hsplit] at hd
      rw [hsplit] at hg
      rcases List.mem_append.mp hd with hd | hd
      · exact absurd hpd (hb d hd)
      · exact eq_or_before_of_pairwise (List.pairwise_append.mp hg).2.1 hd
  · intro hn
    -- nothing was moved, and what stood in front was the earliest
    have hself : g.settle h = g := by
      refine settle_eq_self (fun c hc => ?_)
      have := hn c ((hmem c).mpr hc)
      rwa [signature_settle] at this
    rw [hself]
    exact fun c hc => eq_or_before_of_pairwise hg hc

end MethodGroup

/-! ## The groups of a host -/

namespace Host

theorem map_signature_groups (h : Host) :
    h.groups.map (·.signature) = (MethodGroup.ofTraits h.traits).map (·.signature) := by
  unfold groups settleAll
  rw [List.map_map]
  exact List.map_congr_left (fun g _ => MethodGroup.signature_settle h g)

/-- **A group of the host holds the contributed methods of its signature.** -/
theorem mem_entries_groups {h : Host} {g : MethodGroup} (hg : g ∈ h.groups) {c : Contribution} :
    c ∈ g.entries ↔ c.IsFrom h.traits ∧ c.signature = g.signature := by
  obtain ⟨g₀, hg₀, rfl⟩ := List.mem_map.mp hg
  rw [(MethodGroup.entries_settle_perm h g₀).mem_iff, MethodGroup.signature_settle,
    (MethodGroup.grouped_ofTraits h.traits).mem_entries hg₀, Trait.mem_contributions]

theorem signature_mem_groups {h : Host} {c : Contribution} (hc : c.IsFrom h.traits) :
    c.signature ∈ h.groups.map (·.signature) := by
  rw [map_signature_groups]
  exact (MethodGroup.grouped_ofTraits h.traits).covered c (Trait.mem_contributions.mpr hc)

theorem hasRightWinner_of_mem_groups {h : Host} {g : MethodGroup} (hg : g ∈ h.groups) :
    MethodGroup.HasRightWinner h g := by
  obtain ⟨g₀, hg₀, rfl⟩ := List.mem_map.mp hg
  exact MethodGroup.hasRightWinner_settle h (MethodGroup.pairwise_entries_ofTraits hg₀)

end Host

end TraitWeaver
