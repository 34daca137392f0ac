import Mathlib.Data.List.Perm.Basic
import TraitWeaver.Proofs.HostResolution
import TraitWeaver.Proofs.Preference

/-!
# The order of composition only breaks ties

Two declarations of a host that list the same traits in another order are
resolved by two runs that have little in common: names are searched for in
another order, and of two traits with one simple name now the other is moved to
a numbered qualifier. What the hosts compose must still be the same.

Both runs are compared with something that has no order. A host *offers*, under
the qualified name of a trait and the position of a method there, a method of
some normalized signature. Neither a permutation nor a change of qualifier
touches an offer, and the groups can be told from the offers:

* a signature has a group exactly if it is offered;
* the entries of the group are the offers of that signature;
* a preferred trait wins with the least position that it offers.

Only where no preference decides does the winner depend on the order.
-/

namespace TraitWeaver

/-! ## Offers -/

/-- The trait contributes a method of a signature at a position. -/
def Trait.Gives (t : Trait) (methodPosition : Nat) (s : Signature) : Prop :=
  ∃ m, t.methods[methodPosition]? = some m ∧ m.isContributed ∧ m.key = s

theorem Trait.gives_iff_outline {t : Trait} {j : Nat} {s : Signature} :
    t.Gives j s ↔ ∃ kind, t.outline[j]? = some (s, kind) ∧ kind ≠ .selfAccessor := by
  unfold Gives outline
  rw [List.getElem?_map]
  refine ⟨?_, ?_⟩
  · intro hall
    obtain ⟨m, hm, hc, rfl⟩ := hall
    refine ⟨m.kind, by rw [hm]; rfl, ?_⟩
    exact bne_iff_ne.mp hc
  · intro hall
    obtain ⟨kind, hj, hk⟩ := hall
    obtain ⟨m, hm, he⟩ := Option.map_eq_some_iff.mp hj
    obtain ⟨rfl, rfl⟩ := Prod.mk.inj he
    exact ⟨m, hm, bne_iff_ne.mpr hk, rfl⟩

theorem Trait.Requalified.gives {t u : Trait} (h : Trait.Requalified t u) {j : Nat}
    {s : Signature} : u.Gives j s ↔ t.Gives j s := by
  rw [gives_iff_outline, gives_iff_outline, h.outline]

/-- The qualified name of the trait, and the position of the method there. -/
def Contribution.label (c : Contribution) : String × Nat :=
  (c.owner.qualifiedName, c.methodPosition)

namespace Host

/-- The host has a method of a signature from the trait of that name, at that position there. -/
def Offers (h : Host) (label : String × Nat) (s : Signature) : Prop :=
  ∃ t ∈ h.traits, t.qualifiedName = label.1 ∧ t.Gives label.2 s

theorem offers_of_isFrom {h : Host} {c : Contribution} (hc : c.IsFrom h.traits) :
    h.Offers c.label c.signature :=
  ⟨c.owner, List.mem_of_getElem? hc.1, rfl, c.method, hc.2.1, hc.2.2, rfl⟩

theorem exists_isFrom_of_offers {h : Host} {label : String × Nat} {s : Signature}
    (ho : h.Offers label s) : ∃ c : Contribution, c.IsFrom h.traits ∧ c.label = label
      ∧ c.signature = s := by
  obtain ⟨t, ht, hq, m, hm, hc, hk⟩ := ho
  obtain ⟨i, hi⟩ := List.mem_iff_getElem?.mp ht
  exact ⟨⟨i, label.2, t, m⟩, ⟨hi, hm, hc⟩, Prod.ext hq rfl, hk⟩

theorem mem_signature_groups_iff {h : Host} {s : Signature} :
    s ∈ h.groups.map (·.signature) ↔ ∃ label, h.Offers label s := by
  refine ⟨?_, ?_⟩
  · intro hs
    obtain ⟨g, hg, rfl⟩ := List.mem_map.mp hs
    obtain ⟨hfrom, hw⟩ := (mem_entries_groups hg).mp g.winner_mem_entries
    exact ⟨g.winner.label, hw ▸ offers_of_isFrom hfrom⟩
  · intro hall
    obtain ⟨label, ho⟩ := hall
    obtain ⟨c, hc, -, rfl⟩ := exists_isFrom_of_offers ho
    exact signature_mem_groups hc

theorem mem_label_entries_iff {h : Host} {g : MethodGroup} (hg : g ∈ h.groups)
    {label : String × Nat} :
    label ∈ g.entries.map Contribution.label ↔ h.Offers label g.signature := by
  refine ⟨?_, ?_⟩
  · intro hl
    obtain ⟨c, hc, rfl⟩ := List.mem_map.mp hl
    obtain ⟨hfrom, hs⟩ := (mem_entries_groups hg).mp hc
    exact hs ▸ offers_of_isFrom hfrom
  · intro ho
    obtain ⟨c, hc, rfl, hs⟩ := exists_isFrom_of_offers ho
    exact List.mem_map_of_mem ((mem_entries_groups hg).mpr ⟨hc, hs⟩)

/-! ## Labels tell contributions apart -/

/-- On a host that composes no trait twice, a name stands at one position. -/
theorem position_eq_of_qualifiedName_eq {h : Host} (hd : Trait.Distinct h.traits)
    {c d : Contribution} (hc : c.IsFrom h.traits) (hd' : d.IsFrom h.traits)
    (he : c.owner.qualifiedName = d.owner.qualifiedName) : c.position = d.position := by
  have hci : (h.traits.map (·.qualifiedName))[c.position]? = some c.owner.qualifiedName := by
    rw [List.getElem?_map, hc.1]
    rfl
  have hdi : (h.traits.map (·.qualifiedName))[d.position]? = some d.owner.qualifiedName := by
    rw [List.getElem?_map, hd'.1]
    rfl
  have hlt : c.position < (h.traits.map (·.qualifiedName)).length :=
    (List.getElem?_eq_some_iff.mp hci).1
  exact (List.getElem?_inj hlt hd).mp (by rw [hci, hdi, he])

theorem nodup_label_entries {h : Host} (hd : Trait.Distinct h.traits) {g : MethodGroup}
    (hg : g ∈ h.groups) : (g.entries.map Contribution.label).Nodup := by
  obtain ⟨g₀, hg₀, rfl⟩ := List.mem_map.mp hg
  have hperm := MethodGroup.entries_settle_perm h g₀
  refine ((hperm.map Contribution.label).nodup_iff).mpr ?_
  refine List.pairwise_map.mpr ?_
  refine (MethodGroup.pairwise_entries_ofTraits hg₀).imp_of_mem ?_
  intro c d hc hd' hbefore he
  -- one label is one place, and places in a group all differ
  have hcf := ((mem_entries_groups hg).mp (hperm.mem_iff.mpr hc)).1
  have hdf := ((mem_entries_groups hg).mp (hperm.mem_iff.mpr hd')).1
  obtain ⟨hq, hm⟩ := Prod.mk.inj he
  exact hbefore.ne_place (Prod.ext (position_eq_of_qualifiedName_eq hd hcf hdf hq) hm)

/-! ## Hosts with the same offers -/

/-- **Two hosts compose the same, but for ties.** -/
structure SameComposition (h h' : Host) : Prop where
  /-- They have groups for the same signatures. -/
  signatures : ∀ s, s ∈ h.groups.map (·.signature) ↔ s ∈ h'.groups.map (·.signature)
  /-- The groups of one signature hold the same contributions. -/
  contributions : ∀ g ∈ h.groups, ∀ g' ∈ h'.groups, g.signature = g'.signature →
    (g.entries.map Contribution.label).Perm (g'.entries.map Contribution.label)
  /-- They prefer the same traits. -/
  preferences : ∀ name, h.preferred? name = h'.preferred? name
  /-- A group in which the preferred trait has a part is won by the same contribution. -/
  winners : ∀ g ∈ h.groups, ∀ g' ∈ h'.groups, g.signature = g'.signature →
    (∃ c ∈ g.entries, h.Prefers g.signature.name c) → g.winner.label = g'.winner.label

/-- The preferred trait wins with the first of its methods in the group. -/
theorem methodPosition_winner_le {h : Host} (hd : Trait.Distinct h.traits) {g : MethodGroup}
    (hg : g ∈ h.groups) {c : Contribution} (hc : c ∈ g.entries)
    (hp : h.Prefers g.signature.name c) :
    g.winner.owner.qualifiedName = c.owner.qualifiedName
      ∧ g.winner.methodPosition ≤ c.methodPosition := by
  obtain ⟨hw, hfirst⟩ := (hasRightWinner_of_mem_groups hg).preferred ⟨c, hc, hp⟩
  have hq : g.winner.owner.qualifiedName = c.owner.qualifiedName :=
    Option.some.inj (Eq.trans (Eq.symm hw) hp)
  refine ⟨hq, ?_⟩
  have hwf := ((mem_entries_groups hg).mp g.winner_mem_entries).1
  have hcf := ((mem_entries_groups hg).mp hc).1
  -- both are methods of one trait, and the winner is the first of them
  have hpos := position_eq_of_qualifiedName_eq hd hwf hcf hq
  rcases hfirst c hc hp with rfl | hlt | ⟨-, hlt⟩
  · exact Nat.le_refl _
  · omega
  · omega

/-- Where the preferred trait has a part, its least offer wins on the other host too. -/
theorem methodPosition_winner_le_of_offers {h h' : Host} (hd : Trait.Distinct h.traits)
    (ho : ∀ label s, h'.Offers label s → h.Offers label s)
    (hpref : ∀ name, h.preferred? name = h'.preferred? name) {g g' : MethodGroup}
    (hg : g ∈ h.groups) (hg' : g' ∈ h'.groups) (hs : g.signature = g'.signature)
    (hw' : h'.Prefers g'.signature.name g'.winner) :
    g.winner.owner.qualifiedName = g'.winner.owner.qualifiedName
      ∧ g.winner.methodPosition ≤ g'.winner.methodPosition := by
  -- the winner there is on offer here, so it is an entry of the group here
  have hlabel : g'.winner.label ∈ g.entries.map Contribution.label := by
    refine (mem_label_entries_iff hg).mpr (ho _ _ ?_)
    rw [hs]
    exact (mem_label_entries_iff hg').mp (List.mem_map_of_mem g'.winner_mem_entries)
  obtain ⟨c, hc, hcl⟩ := List.mem_map.mp hlabel
  obtain ⟨hq, hm⟩ := Prod.mk.inj hcl
  have hp : h.Prefers g.signature.name c := by
    unfold Prefers at hw' ⊢
    rw [hpref, hs, hw', hq]
  rw [← hq, ← hm]
  exact methodPosition_winner_le hd hg hc hp

/-- **Hosts with the same offers and preferences compose the same.** -/
theorem sameComposition_of_offers {h h' : Host} (hd : Trait.Distinct h.traits)
    (hd' : Trait.Distinct h'.traits) (ho : ∀ label s, h.Offers label s ↔ h'.Offers label s)
    (hpref : ∀ name, h.preferred? name = h'.preferred? name) : SameComposition h h' where
  signatures := by
    intro s
    rw [mem_signature_groups_iff, mem_signature_groups_iff]
    exact exists_congr (fun label => ho label s)
  contributions := by
    intro g hg g' hg' hs
    refine (List.perm_ext_iff_of_nodup (nodup_label_entries hd hg)
      (nodup_label_entries hd' hg')).mpr (fun label => ?_)
    rw [mem_label_entries_iff hg, mem_label_entries_iff hg', ← hs]
    exact ho label g.signature
  preferences := hpref
  winners := by
    intro g hg g' hg' hs hex
    obtain ⟨hw, -⟩ := (hasRightWinner_of_mem_groups hg).preferred hex
    -- each winner is on offer to the other host, so neither position is before the other
    obtain ⟨hq', hle'⟩ := methodPosition_winner_le_of_offers hd' (fun l s => (ho l s).mp)
      (fun n => (hpref n).symm) hg' hg hs.symm hw
    have hw' : h'.Prefers g'.signature.name g'.winner := by
      unfold Prefers at hw ⊢
      rw [← hpref, ← hs, hw, hq']
    obtain ⟨hq, hle⟩ := methodPosition_winner_le_of_offers hd (fun l s => (ho l s).mpr)
      hpref hg hg' hs hw'
    exact Prod.ext hq (Nat.le_antisymm hle hle')

end Host

/-! ## Another order of the traits -/

theorem Trait.exists_gives_iff_of_forall₂ {ts us : List Trait}
    (hf : List.Forall₂ Trait.Requalified ts us) {name : String} {j : Nat} {s : Signature} :
    (∃ u ∈ us, u.qualifiedName = name ∧ u.Gives j s)
      ↔ ∃ t ∈ ts, t.qualifiedName = name ∧ t.Gives j s := by
  induction hf with
  | nil =>
      have hnone : ∀ P : Trait → Prop, ¬ ∃ t ∈ ([] : List Trait), P t := by
        intro P hex
        obtain ⟨_, hmem, -⟩ := hex
        exact absurd hmem List.not_mem_nil
      exact iff_of_false (hnone _) (hnone _)
  | cons hu _ ih =>
      rw [List.exists_mem_cons_iff, List.exists_mem_cons_iff, hu.qualifiedName, hu.gives, ih]

/-- A permuted declaration resolves if the declaration does, to a host that composes the same. -/
theorem HostDecl.exists_resolve_of_perm {index : TraitIndex} {d : HostDecl} {h : Host}
    {traits' : List String} (hp : traits'.Perm d.traits) (hr : (d.resolve index).1 = .ok h) :
    ∃ h', ({ d with traits := traits' }.resolve index).1 = .ok h' ∧ h.SameComposition h' := by
  obtain ⟨name, found, superclass, preferences, hname, hne, hfound, hsuper, hprefs, rfl⟩ :=
    resolve_eq_ok_iff.mp hr
  obtain ⟨hall, hd⟩ := findTraits_eq_ok_iff.mp hfound
  -- each name finds what it found before, so the traits found are permuted likewise
  obtain ⟨found', hall', hperm⟩ := List.perm_comp_forall₂ hp hall
  have hd' : Trait.Distinct found' := ((hperm.map _).nodup_iff).mpr hd
  have hfound' : { d with traits := traits' }.findTraits index = .ok found' :=
    findTraits_eq_ok_iff.mpr ⟨hall', hd'⟩
  have hf := Trait.forall₂_distinguishAll found
  have hf' := Trait.forall₂_distinguishAll found'
  -- the names in play are the same, so every preference names the same trait
  have hnames : ∀ n, n ∈ (Trait.distinguishAll found').map (·.name) ↔
      n ∈ (Trait.distinguishAll found).map (·.name) := by
    intro n
    rw [Trait.map_name_of_forall₂ hf, Trait.map_name_of_forall₂ hf']
    exact (hperm.map _).mem_iff
  have hprefs' : (PreferenceDecl.addAll d.name (Trait.distinguishAll found') .empty
      d.preferences).1 = .ok preferences := by
    have hwin : ∀ p ∈ d.preferences, p.winnerName? (Trait.distinguishAll found') =
        p.winnerName? (Trait.distinguishAll found) := by
      intro p _
      exact PreferenceDecl.winnerName?_eq_of_mem_iff hd'.distinguishAll hd.distinguishAll hnames
    refine toOption_eq_some_iff.mp ?_
    rw [PreferenceDecl.addAll_congr hwin, hprefs]
    rfl
  have hne' : traits' ≠ [] := by
    rintro rfl
    exact hne hp.symm.eq_nil
  refine ⟨_, resolve_eq_ok_iff.mpr ⟨name, found', superclass, preferences, hname, hne', hfound',
    hsuper, hprefs', rfl⟩, ?_⟩
  refine Host.sameComposition_of_offers hd.distinguishAll hd'.distinguishAll ?_ (fun _ => rfl)
  intro label s
  unfold Host.Offers
  rw [Trait.exists_gives_iff_of_forall₂ hf, Trait.exists_gives_iff_of_forall₂ hf']
  exact exists_congr (fun t => and_congr_left' hperm.mem_iff.symm)

/--
**The order of the traits only breaks ties.**

Whatever the index holds, a declaration and one with its traits permuted are
resolved or refused together, and if they are resolved, the hosts compose the
same methods and agree on every winner that a preference decides.
-/
theorem HostDecl.resolve_perm {index : TraitIndex} {d : HostDecl} {traits' : List String}
    (hp : traits'.Perm d.traits) :
    ((∃ h, (d.resolve index).1 = .ok h) ↔
        ∃ h', ({ d with traits := traits' }.resolve index).1 = .ok h')
      ∧ ∀ h h', (d.resolve index).1 = .ok h →
          ({ d with traits := traits' }.resolve index).1 = .ok h' → h.SameComposition h' := by
  refine ⟨⟨?_, ?_⟩, ?_⟩
  · intro hall
    obtain ⟨h, hr⟩ := hall
    obtain ⟨h', hr', -⟩ := exists_resolve_of_perm hp hr
    exact ⟨h', hr'⟩
  · intro hall
    obtain ⟨h', hr'⟩ := hall
    obtain ⟨h, hr, -⟩ := exists_resolve_of_perm (d := { d with traits := traits' }) hp.symm hr'
    exact ⟨h, hr⟩
  · intro h h' hr hr'
    obtain ⟨h'', hr'', hsame⟩ := exists_resolve_of_perm hp hr
    obtain rfl := Except.ok.inj (hr''.symm.trans hr')
    exact hsame

/-- The crate can take its boxes in the other order. -/
theorem HostDecl.resolve_crate_perm :
    ["b.Box", "a.Box"].Perm HostDecl.crate.traits
      ∧ ∃ h h', (HostDecl.crate.resolve (TraitIndex.ofList Trait.boxes)).1 = .ok h
        ∧ ({ HostDecl.crate with traits := ["b.Box", "a.Box"] }.resolve
            (TraitIndex.ofList Trait.boxes)).1 = .ok h'
        ∧ h.SameComposition h' := by
  have hp : ["b.Box", "a.Box"].Perm HostDecl.crate.traits := List.Perm.swap _ _ _
  have hr := HostDecl.resolve_crate
  obtain ⟨hiff, hsame⟩ := HostDecl.resolve_perm hp
  obtain ⟨h', hr'⟩ := hiff.mp ⟨_, hr⟩
  exact ⟨hp, _, h', hr, hr', hsame _ _ hr hr'⟩

end TraitWeaver
