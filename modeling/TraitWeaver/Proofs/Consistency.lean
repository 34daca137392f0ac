import TraitWeaver.Proofs.Distinguishing

/-!
# Which hosts are resolved

A host is resolved exactly if its declaration is consistent, and consistency does not
mention the order in which anything is checked: it is about which traits the names find
and which of them the preferences name.

For the preferences this is not obvious. They are taken in one by one, and each is checked
against the map of those before it. But an entry of that map can only be from a preference
before it, so "no contradiction with the map" and "no contradiction with a preference" are
one thing (`PreferenceDecl.Given`), whatever has been taken in and whatever is still to
come. The map at the end is read the same in any order, and as its keys increase it is
the same map.
-/

namespace TraitWeaver

namespace PreferenceDecl

/-- Among some traits, the preference names this one: by its qualified name, or by a simple name that
no other of them has. -/
def Names (p : PreferenceDecl) (traits : List Trait) (t : Trait) : Prop :=
  t ∈ traits ∧ DeclaredName.Designated (traits.map (·.name)) p.winner t.name

theorem winnerName?_eq_some_iff {p : PreferenceDecl} {traits : List Trait} {q : String}
    (hd : Trait.Distinct traits) :
    p.winnerName? traits = some q ↔ ∃ t, p.Names traits t ∧ t.qualifiedName = q := by
  unfold winnerName?
  simp only [Option.map_eq_some_iff, toOption_eq_some_iff, winnerAmong_eq_ok_iff,
    Trait.findAmong_eq_ok_iff hd]
  rfl

/-! ## Taking preferences in -/

section

variable {traits : List Trait} {known next all : SortedMap String} {p : PreferenceDecl}
  {prefs rest : List PreferenceDecl} {host m q r : String}

/-- The method is given to the trait of this name, by what is known or by one of the preferences. -/
def Given (traits : List Trait) (known : SortedMap String) (prefs : List PreferenceDecl)
    (m q : String) : Prop :=
  known.get? m = some q ∨ ∃ p ∈ prefs, p.method = m ∧ p.winnerName? traits = some q

/-- Once a preference is taken in, it is known, and nothing else is. -/
theorem get?_of_addTo (h : (p.addTo traits known).toOption = some next) :
    ∃ q, p.winnerName? traits = some q
      ∧ ∀ m r, next.get? m = some r ↔ known.get? m = some r ∨ p.method = m ∧ q = r := by
  rw [toOption_addTo] at h
  obtain ⟨q, hq, h⟩ := Option.bind_eq_some_iff.mp h
  refine ⟨q, hq, fun m r => ?_⟩
  cases hk : known.get? p.method with
  | none =>
      rw [hk] at h
      rw [← Option.some.inj h, SortedMap.get?_insert]
      by_cases hm : m = p.method
      · rw [if_pos hm, hm, hk]
        simp
      · rw [if_neg hm]
        simp [Ne.symm hm]
  | some first =>
      rw [hk] at h
      dsimp only at h
      by_cases hfirst : first = q
      · rw [if_pos hfirst] at h
        rw [← Option.some.inj h]
        refine (or_iff_left_of_imp ?_).symm
        rintro ⟨rfl, rfl⟩
        rw [hk, hfirst]
      · rw [if_neg hfirst] at h
        cases h

/-- A preference is taken in if what is known agrees. -/
theorem exists_addTo (hq : p.winnerName? traits = some q)
    (hknown : ∀ r, known.get? p.method = some r → r = q) :
    ∃ next, (p.addTo traits known).toOption = some next := by
  rw [toOption_addTo, hq, Option.bind_some]
  cases hk : known.get? p.method with
  | none => exact ⟨_, rfl⟩
  | some first => exact ⟨known, if_pos (hknown first hk)⟩

theorem increasing_of_addTo (h : (p.addTo traits known).toOption = some next)
    (hknown : SortedMap.Increasing known.entries) : SortedMap.Increasing next.entries := by
  rw [toOption_addTo] at h
  obtain ⟨q, -, h⟩ := Option.bind_eq_some_iff.mp h
  split at h
  · rw [← Option.some.inj h]
    exact SortedMap.increasing_insertEntry hknown _ _
  · split at h
    · rw [← Option.some.inj h]
      exact hknown
    · cases h

/-- What is given stays given when a preference is taken in. -/
theorem given_of_addTo (h : (p.addTo traits known).toOption = some next) :
    Given traits next rest m r ↔ Given traits known (p :: rest) m r := by
  obtain ⟨q, hq, hnext⟩ := get?_of_addTo h
  unfold Given
  rw [hnext, or_assoc]
  simp only [List.mem_cons, exists_eq_or_imp, hq, Option.some.injEq]

/-- **Preferences that are taken in all name a trait, and they are read back, with what was known.** -/
theorem get?_of_addAll (h : (addAll host traits known prefs).1.toOption = some all) :
    (∀ p ∈ prefs, ∃ q, p.winnerName? traits = some q)
      ∧ ∀ m r, all.get? m = some r ↔ Given traits known prefs m r := by
  induction prefs generalizing known with
  | nil =>
      obtain rfl := Option.some.inj h
      exact ⟨fun p hp => absurd hp List.not_mem_nil, fun m r => by simp [Given]⟩
  | cons p rest ih =>
      rw [toOption_addAll_cons] at h
      obtain ⟨next, hstep, hrest⟩ := Option.bind_eq_some_iff.mp h
      obtain ⟨hnamed, hread⟩ := ih hrest
      obtain ⟨q, hq, -⟩ := get?_of_addTo hstep
      exact ⟨List.forall_mem_cons.mpr ⟨⟨q, hq⟩, hnamed⟩,
        fun m r => (hread m r).trans (given_of_addTo hstep)⟩

theorem increasing_of_addAll (h : (addAll host traits known prefs).1.toOption = some all)
    (hknown : SortedMap.Increasing known.entries) : SortedMap.Increasing all.entries := by
  induction prefs generalizing known with
  | nil => exact Option.some.inj h ▸ hknown
  | cons p rest ih =>
      rw [toOption_addAll_cons] at h
      obtain ⟨next, hstep, hrest⟩ := Option.bind_eq_some_iff.mp h
      exact ih hrest (increasing_of_addTo hstep hknown)

/-- **Preferences are taken in if each names a trait and no method is given twice.** -/
theorem exists_addAll (hnamed : ∀ p ∈ prefs, ∃ q, p.winnerName? traits = some q)
    (hagree : ∀ m q r, Given traits known prefs m q → Given traits known prefs m r → q = r) :
    ∃ all, (addAll host traits known prefs).1.toOption = some all := by
  induction prefs generalizing known with
  | nil => exact ⟨known, rfl⟩
  | cons p rest ih =>
      obtain ⟨⟨q, hq⟩, hrestNamed⟩ := List.forall_mem_cons.mp hnamed
      have hown : Given traits known (p :: rest) p.method q :=
        Or.inr ⟨p, List.mem_cons_self, rfl, hq⟩
      obtain ⟨next, hstep⟩ := exists_addTo hq fun r hr => hagree _ _ _ (Or.inl hr) hown
      obtain ⟨all, hall⟩ := ih hrestNamed fun m q r h h' =>
        hagree m q r ((given_of_addTo hstep).mp h) ((given_of_addTo hstep).mp h')
      refine ⟨all, ?_⟩
      rw [toOption_addAll_cons, hstep]
      exact hall

/-- What can be taken in one order can be taken in another, and comes to the same. -/
theorem addAll_of_perm {prefs' : List PreferenceDecl} (hperm : prefs'.Perm prefs)
    (h : (addAll host traits .empty prefs).1.toOption = some all) :
    (addAll host traits .empty prefs').1.toOption = some all := by
  obtain ⟨hnamed, hread⟩ := get?_of_addAll h
  have hgiven : ∀ m r, Given traits .empty prefs' m r ↔ Given traits .empty prefs m r := by
    intro m r
    unfold Given
    simp only [hperm.mem_iff]
  have hagree : ∀ m q r, Given traits .empty prefs' m q → Given traits .empty prefs' m r →
      q = r := by
    intro m q r hq hr
    rw [hgiven, ← hread] at hq hr
    exact Option.some.inj (hq.symm.trans hr)
  obtain ⟨all', hall'⟩ : ∃ all', (addAll host traits .empty prefs').1.toOption = some all' :=
    exists_addAll (fun p hp => hnamed p (hperm.mem_iff.mp hp)) hagree
  have hincreasing : SortedMap.Increasing (SortedMap.empty : SortedMap String).entries :=
    List.Pairwise.nil
  have hsame : all' = all := by
    refine SortedMap.ext_of_increasing (increasing_of_addAll hall' hincreasing)
      (increasing_of_addAll h hincreasing) fun m => Option.ext fun r => ?_
    rw [(get?_of_addAll hall').2, hgiven, hread]
  rw [hall', hsame]

end

end PreferenceDecl

/-! ## Hosts -/

namespace HostDecl

/-- **The declaration is consistent**, and its names find these traits. -/
structure Consistent (d : HostDecl) (index : TraitIndex) (found : List Trait) : Prop where
  name : ∃ name, DeclaredName.ofQualified d.name = .ok name
  nonempty : d.traits ≠ []
  finds : List.Forall₂ (fun name t => index.find name = .ok t) d.traits found
  /-- No two names find the same trait. -/
  distinct : Trait.Distinct found
  superclass : ∀ s, d.superclass = some s → ∃ s', s.resolve d.name = .ok s'
  names : ∀ p ∈ d.preferences, ∃ t, p.Names found t
  /-- No method is given two different preferred traits. -/
  agrees : ∀ p ∈ d.preferences, ∀ p' ∈ d.preferences, p.method = p'.method →
    ∀ t t', p.Names found t → p'.Names found t' → t.qualifiedName = t'.qualifiedName

/-- **What the host is**, if the names of its declaration find these traits. -/
structure Composes (d : HostDecl) (found : List Trait) (h : Host) : Prop where
  /-- It composes what was found, in the same order, up to qualifiers. -/
  traits : List.Forall₂ Trait.Requalified found h.traits
  /-- A trait stays as it was found unless one before it has the same qualifier. -/
  kept : ∀ before t after, found = before ++ t :: after →
    t.qualifier ∉ before.map (·.qualifier) → h.traits[before.length]? = some t
  /-- A trait is preferred for a method if a preference for the method names it, and only then. -/
  preferred : ∀ m q, h.preferred? m = some q ↔
    ∃ p ∈ d.preferences, p.method = m ∧ ∃ t, p.Names found t ∧ t.qualifiedName = q

variable {d : HostDecl} {index : TraitIndex} {found : List Trait}

theorem exists_superclass_iff :
    (∃ superclass, d.superclass.mapM (fun s => s.resolve d.name) = .ok superclass) ↔
      ∀ s, d.superclass = some s → ∃ s', s.resolve d.name = .ok s' := by
  cases d.superclass with
  | none => exact iff_of_true ⟨none, rfl⟩ nofun
  | some s =>
      refine ⟨?_, ?_⟩
      · rintro ⟨_, h⟩ _ ⟨⟩
        obtain ⟨s', hs', -⟩ := bind_eq_ok.mp h
        exact ⟨s', hs'⟩
      · intro h
        obtain ⟨s', hs'⟩ := h s rfl
        exact ⟨some s', bind_eq_ok.mpr ⟨s', hs', rfl⟩⟩

/-- A preference names the same trait under all qualifiers. -/
theorem winnerName?_distinguishAll (hd : Trait.Distinct found) (p : PreferenceDecl) :
    p.winnerName? (Trait.distinguishAll found) = p.winnerName? found := by
  have hnames := Trait.map_name_of_forall₂ (Trait.forall₂_distinguishAll found)
  exact PreferenceDecl.winnerName?_eq_of_mem_iff hd.distinguishAll hd fun n => by rw [hnames]

/-- The preferences are taken in, under the qualifiers of the host or under those of the traits. -/
theorem toOption_addAll_distinguishAll (hd : Trait.Distinct found) :
    (PreferenceDecl.addAll d.name (Trait.distinguishAll found) .empty d.preferences).1.toOption =
      (PreferenceDecl.addAll d.name found .empty d.preferences).1.toOption :=
  PreferenceDecl.addAll_congr (fun p _ => winnerName?_distinguishAll hd p) .empty

/-- **The preferences give each method to what they name.** -/
theorem given_iff (hd : Trait.Distinct found) {m q : String} :
    PreferenceDecl.Given found .empty d.preferences m q ↔
      ∃ p ∈ d.preferences, p.method = m ∧ ∃ t, p.Names found t ∧ t.qualifiedName = q := by
  unfold PreferenceDecl.Given
  simp only [PreferenceDecl.winnerName?_eq_some_iff hd]
  exact or_iff_right nofun

theorem Consistent.exists_preferences (h : d.Consistent index found) : ∃ preferences,
    (PreferenceDecl.addAll d.name (Trait.distinguishAll found) .empty d.preferences).1 =
      .ok preferences := by
  simp only [← toOption_eq_some_iff, toOption_addAll_distinguishAll h.distinct]
  refine PreferenceDecl.exists_addAll (fun p hp => ?_) fun m q r hq hr => ?_
  · obtain ⟨t, ht⟩ := h.names p hp
    exact ⟨_, (PreferenceDecl.winnerName?_eq_some_iff h.distinct).mpr ⟨t, ht, rfl⟩⟩
  · obtain ⟨p, hp, rfl, t, ht, rfl⟩ := (given_iff h.distinct).mp hq
    obtain ⟨p', hp', hm, t', ht', rfl⟩ := (given_iff h.distinct).mp hr
    exact h.agrees p hp p' hp' hm.symm t t' ht ht'

theorem consistent_of_resolve {h : Host} (hr : (d.resolve index).1 = .ok h) :
    ∃ found, d.Consistent index found := by
  obtain ⟨name, found, superclass, preferences, hname, hnonempty, hfound, hsuperclass, hall, -⟩ :=
    resolve_eq_ok_iff.mp hr
  obtain ⟨hfinds, hdistinct⟩ := findTraits_eq_ok_iff.mp hfound
  have hall := toOption_eq_some_iff.mpr hall
  rw [toOption_addAll_distinguishAll hdistinct] at hall
  obtain ⟨hnamed, hread⟩ := PreferenceDecl.get?_of_addAll hall
  refine ⟨found, ⟨name, hname⟩, hnonempty, hfinds, hdistinct,
    exists_superclass_iff.mp ⟨superclass, hsuperclass⟩, ?_, ?_⟩
  · intro p hp
    obtain ⟨q, hq⟩ := hnamed p hp
    obtain ⟨t, ht, -⟩ := (PreferenceDecl.winnerName?_eq_some_iff hdistinct).mp hq
    exact ⟨t, ht⟩
  · intro p hp p' hp' hm t t' ht ht'
    have hgives : ∀ p₀ ∈ d.preferences, ∀ t₀, p₀.Names found t₀ →
        preferences.get? p₀.method = some t₀.qualifiedName := fun p₀ hp₀ t₀ ht₀ =>
      (hread _ _).mpr ((given_iff hdistinct).mpr ⟨p₀, hp₀, rfl, t₀, ht₀, rfl⟩)
    have hfirst := hgives p hp t ht
    rw [hm, hgives p' hp' t' ht'] at hfirst
    exact (Option.some.inj hfirst).symm

theorem Consistent.exists_resolve (h : d.Consistent index found) :
    ∃ host, (d.resolve index).1 = .ok host := by
  obtain ⟨name, hname⟩ := h.name
  obtain ⟨superclass, hsuperclass⟩ := exists_superclass_iff.mpr h.superclass
  obtain ⟨preferences, hall⟩ := h.exists_preferences
  have hfound := findTraits_eq_ok_iff.mpr ⟨h.finds, h.distinct⟩
  exact ⟨_, resolve_eq_ok_iff.mpr ⟨name, found, superclass, preferences, hname, h.nonempty, hfound,
    hsuperclass, hall, rfl⟩⟩

theorem Consistent.composes (h : d.Consistent index found) {host : Host}
    (hr : (d.resolve index).1 = .ok host) : d.Composes found host := by
  obtain ⟨_, found', _, preferences, -, -, hfound, -, hall, rfl⟩ := resolve_eq_ok_iff.mp hr
  rw [findTraits_eq_ok_iff.mpr ⟨h.finds, h.distinct⟩] at hfound
  obtain rfl := Except.ok.inj hfound
  have hall := toOption_eq_some_iff.mpr hall
  rw [toOption_addAll_distinguishAll h.distinct] at hall
  refine ⟨Trait.forall₂_distinguishAll found, ?_, fun m q => ?_⟩
  · intro before t after hsplit hfirst
    obtain ⟨before', u, after', he, hlength, hu⟩ := Trait.exists_distinguishAll_eq before t after
    show (Trait.distinguishAll found)[before.length]? = some t
    rw [hsplit, he, ← hu.keeps hfirst, ← hlength]
    simp
  · exact ((PreferenceDecl.get?_of_addAll hall).2 m q).trans (given_iff h.distinct)

/-- In another order, the preferences make the same host. -/
theorem resolve_of_perm {prefs : List PreferenceDecl} (hperm : prefs.Perm d.preferences) {host : Host}
    (hr : (d.resolve index).1 = .ok host) :
    ({ d with preferences := prefs }.resolve index).1 = .ok host := by
  obtain ⟨name, found, superclass, preferences, hname, hnonempty, hfound, hsuperclass, hall, he⟩ :=
    resolve_eq_ok_iff.mp hr
  have hall' := PreferenceDecl.addAll_of_perm hperm (toOption_eq_some_iff.mpr hall)
  exact resolve_eq_ok_iff.mpr ⟨name, found, superclass, preferences, hname, hnonempty, hfound,
    hsuperclass, toOption_eq_some_iff.mp hall', he⟩

/-- **A host is resolved exactly if its declaration is consistent.** It then composes what its names
find, prefers what its preferences name, and would be the same with the preferences in any other
order. -/
theorem resolves_iff_consistent (d : HostDecl) (index : TraitIndex) :
    ((∃ h, (d.resolve index).1 = .ok h) ↔ ∃ found, d.Consistent index found)
      ∧ (∀ h found, (d.resolve index).1 = .ok h → d.Consistent index found → d.Composes found h)
      ∧ ∀ prefs, prefs.Perm d.preferences →
        ({ d with preferences := prefs }.resolve index).1.toOption =
          (d.resolve index).1.toOption := by
  refine ⟨⟨fun ⟨h, hr⟩ => consistent_of_resolve hr, fun ⟨found, h⟩ => h.exists_resolve⟩,
    fun h found hr hconsistent => hconsistent.composes hr, fun prefs hperm => ?_⟩
  refine Option.ext fun h => ?_
  simp only [toOption_eq_some_iff]
  -- the declared order is one of the other orders
  exact ⟨resolve_of_perm (d := { d with preferences := prefs }) hperm.symm, resolve_of_perm hperm⟩

/-! ## A crate -/

/-- The crate is consistent, and no longer if it prefers the other box as well. -/
theorem resolves_iff_consistent_crate :
    (∃ found, crate.Consistent (.ofList Trait.boxes) found ∧ crate.Composes found Host.crate)
      ∧ ¬∃ found, { crate with preferences := ⟨"get", "a.Box"⟩ :: crate.preferences }.Consistent
        (.ofList Trait.boxes) found := by
  obtain ⟨hiff, hcomposes, -⟩ := resolves_iff_consistent crate (.ofList Trait.boxes)
  obtain ⟨found, hfound⟩ := hiff.mp ⟨Host.crate, resolve_crate⟩
  refine ⟨⟨found, hfound, hcomposes _ _ resolve_crate hfound⟩, ?_⟩
  rw [← (resolves_iff_consistent _ _).1]
  rintro ⟨h, hr⟩
  have hnone : ({ crate with preferences := ⟨"get", "a.Box"⟩ :: crate.preferences }.resolve
      (.ofList Trait.boxes)).1.toOption = none := by
    decide +kernel
  rw [toOption_eq_some_iff.mpr hr] at hnone
  cases hnone

end HostDecl

end TraitWeaver
