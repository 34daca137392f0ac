import Mathlib.Data.List.Forall2
import TraitWeaver.Host.Resolve
import TraitWeaver.Proofs.Lookup
import TraitWeaver.Proofs.Outcome
import TraitWeaver.Proofs.Qualifier

/-!
# What a resolved host is made of

`HostDecl.resolve` runs through a declaration once: it finds the traits, keeps
their qualifiers apart, checks the superclass and collects the preferences. This
module says what each of these loops amounts to, so that later modules never
look at the loops again.

* **Traits.** The names find a trait each, in their order, and no two the same
  (`findTraits_eq_ok_iff`).
* **Qualifiers.** Each trait stays in its place, possibly under another
  qualifier (`forall₂_distinguishAll`).
* **Preferences.** Only the qualified names of the preferred traits count
  (`addAll_congr`).
* **Superclass.** It has the arguments that are declared, or one made up for each
  of its parameters (`SuperclassDecl.Resolves`).
-/

namespace TraitWeaver

/-! ## Finding the traits -/

theorem Trait.distinct_snoc {traits : List Trait} {t : Trait} :
    Distinct (traits ++ [t]) ↔
      Distinct traits ∧ ∀ u ∈ traits, u.qualifiedName ≠ t.qualifiedName := by
  unfold Distinct
  rw [List.map_append, List.nodup_append]
  refine ⟨?_, ?_⟩
  · intro hall
    obtain ⟨h, -, hne⟩ := hall
    refine ⟨h, fun u hu => ?_⟩
    exact hne _ (List.mem_map_of_mem hu) _ List.mem_cons_self
  · intro hall
    obtain ⟨h, hne⟩ := hall
    refine ⟨h, List.nodup_singleton _, ?_⟩
    intro a ha b hb
    obtain ⟨u, hu, rfl⟩ := List.mem_map.mp ha
    rw [List.mem_singleton.mp hb]
    exact hne u hu

namespace HostDecl

theorem addTrait_eq_ok_iff {index : TraitIndex} {traits ts : List Trait} {name : String} :
    addTrait index traits name = .ok ts ↔
      ∃ t, index.find name = .ok t ∧ (∀ u ∈ traits, u.qualifiedName ≠ t.qualifiedName)
        ∧ ts = traits ++ [t] := by
  unfold addTrait
  rw [bind_eq_ok]
  refine exists_congr (fun t => and_congr_right (fun _ => ?_))
  by_cases hany : traits.any (·.qualifiedName = t.qualifiedName)
  · rw [if_pos hany]
    refine ⟨?_, ?_⟩
    · intro h
      cases h
    · intro hall
      obtain ⟨hne, -⟩ := hall
      obtain ⟨u, hu, he⟩ := List.any_eq_true.mp hany
      -- the test found what may not be there
      exact absurd (of_decide_eq_true he) (hne u hu)
  · rw [if_neg hany]
    refine ⟨?_, ?_⟩
    · intro h
      -- the test failed, so no trait found before has the name
      refine ⟨fun u hu he => hany ?_, (pure_eq_ok.mp h).symm⟩
      exact List.any_eq_true.mpr ⟨u, hu, decide_eq_true he⟩
    · intro hall
      obtain ⟨-, rfl⟩ := hall
      rfl

theorem foldlM_addTrait_eq_ok_iff {index : TraitIndex} (names : List String) :
    ∀ {found ts : List Trait}, Trait.Distinct found →
      (names.foldlM (addTrait index) found = .ok ts ↔
        ∃ new, List.Forall₂ (fun name t => index.find name = .ok t) names new
          ∧ ts = found ++ new ∧ Trait.Distinct ts) := by
  induction names with
  | nil =>
      intro found ts hd
      rw [List.foldlM_nil, pure_eq_ok]
      refine ⟨?_, ?_⟩
      · rintro rfl
        exact ⟨[], List.Forall₂.nil, (List.append_nil _).symm, hd⟩
      · intro hall
        obtain ⟨new, hnew, rfl, -⟩ := hall
        rw [List.forall₂_nil_left_iff.mp hnew, List.append_nil]
  | cons name names ih =>
      intro found ts hd
      rw [List.foldlM_cons, bind_eq_ok]
      refine ⟨?_, ?_⟩
      · intro hall
        obtain ⟨_, hadd, hrest⟩ := hall
        obtain ⟨t, hfind, hne, rfl⟩ := addTrait_eq_ok_iff.mp hadd
        obtain ⟨new, hnew, rfl, hts⟩ := (ih (Trait.distinct_snoc.mpr ⟨hd, hne⟩)).mp hrest
        exact ⟨t :: new, List.Forall₂.cons hfind hnew, List.append_assoc _ _ _, hts⟩
      · intro hall
        obtain ⟨all, hall, rfl, hts⟩ := hall
        obtain ⟨t, new, hfind, hnew, rfl⟩ := List.forall₂_cons_left_iff.mp hall
        rw [List.append_cons] at hts ⊢
        -- what is distinct as a whole is distinct up to the trait just found
        have hsnoc : Trait.Distinct (found ++ [t]) := by
          unfold Trait.Distinct at hts ⊢
          rw [List.map_append] at hts
          exact (List.nodup_append.mp hts).1
        refine ⟨found ++ [t], addTrait_eq_ok_iff.mpr ?_, (ih hsnoc).mpr ⟨new, hnew, rfl, hts⟩⟩
        exact ⟨t, hfind, (Trait.distinct_snoc.mp hsnoc).2, rfl⟩

/-- **The names find their traits in order, and no two find the same one.** -/
theorem findTraits_eq_ok_iff {d : HostDecl} {index : TraitIndex} {ts : List Trait} :
    d.findTraits index = .ok ts ↔
      List.Forall₂ (fun name t => index.find name = .ok t) d.traits ts ∧ Trait.Distinct ts := by
  unfold findTraits
  rw [foldlM_addTrait_eq_ok_iff d.traits (show Trait.Distinct [] from List.nodup_nil)]
  refine ⟨?_, ?_⟩
  · intro hall
    obtain ⟨new, hnew, rfl, hd⟩ := hall
    exact ⟨hnew, hd⟩
  · intro hall
    obtain ⟨hnew, hd⟩ := hall
    exact ⟨ts, hnew, rfl, hd⟩

end HostDecl

/-! ## Keeping qualifiers apart -/

namespace Trait

/-- A step takes the next trait in, as it is or under another qualifier. -/
theorem distinguish_fst (before : List Trait) (taken : List String) (t : Trait) :
    ∃ u, Requalified t u ∧ (distinguish (before, taken) t).1 = before ++ [u] := by
  unfold distinguish
  dsimp only
  split
  · exact ⟨_, Or.inr ⟨_, rfl⟩, rfl⟩
  · exact ⟨t, Or.inl rfl, rfl⟩

theorem foldl_distinguish_fst (ts : List Trait) :
    ∀ (before : List Trait) (taken : List String),
      ∃ us, List.Forall₂ Requalified ts us
        ∧ (ts.foldl distinguish (before, taken)).1 = before ++ us := by
  induction ts with
  | nil =>
      intro before taken
      exact ⟨[], List.Forall₂.nil, (List.append_nil _).symm⟩
  | cons t ts ih =>
      intro before taken
      obtain ⟨u, hu, hstep⟩ := distinguish_fst before taken t
      -- the step appends one trait, whatever the names taken so far
      obtain ⟨us, hus, hfold⟩ :=
        ih (distinguish (before, taken) t).1 (distinguish (before, taken) t).2
      refine ⟨u :: us, List.Forall₂.cons hu hus, ?_⟩
      rw [List.foldl_cons, hfold, hstep, List.append_assoc]
      rfl

/-- **Every trait stays in its place, up to its qualifier.** -/
theorem forall₂_distinguishAll (ts : List Trait) :
    List.Forall₂ Requalified ts (distinguishAll ts) := by
  obtain ⟨us, hus, hfold⟩ := foldl_distinguish_fst ts [] (ts.map (·.qualifier))
  unfold distinguishAll
  rw [hfold]
  exact hus

theorem map_name_of_forall₂ {ts us : List Trait} (h : List.Forall₂ Requalified ts us) :
    us.map (·.name) = ts.map (·.name) := by
  induction h with
  | nil => rfl
  | cons hu _ ih => rw [List.map_cons, List.map_cons, hu.name, ih]

theorem Distinct.of_map_name_eq {ts us : List Trait} (h : Distinct ts)
    (he : us.map (·.name) = ts.map (·.name)) : Distinct us := by
  have hq : us.map (·.qualifiedName) = ts.map (·.qualifiedName) := by
    have := congrArg (List.map DeclaredName.qualified) he
    rwa [List.map_map, List.map_map] at this
  unfold Distinct
  rw [hq]
  exact h

theorem Distinct.distinguishAll {ts : List Trait} (h : Distinct ts) :
    Distinct (distinguishAll ts) :=
  h.of_map_name_eq (map_name_of_forall₂ (forall₂_distinguishAll ts))

end Trait

/-! ## Preferences -/

namespace PreferenceDecl

/-- The qualified name of the trait that a preference names, if it names one. -/
def winnerName? (p : PreferenceDecl) (traits : List Trait) : Option String :=
  (p.winnerAmong traits).toOption.map (·.qualifiedName)

theorem winnerAmong_eq_ok_iff {p : PreferenceDecl} {traits : List Trait} {t : Trait} :
    p.winnerAmong traits = .ok t ↔ Trait.findAmong traits p.winner = .ok t := by
  unfold winnerAmong
  exact mapError_eq_ok

/-- A preference is taken in if it names a trait and contradicts none before it. -/
theorem toOption_addTo (p : PreferenceDecl) (traits : List Trait) (known : SortedMap String) :
    (p.addTo traits known).toOption =
      (p.winnerName? traits).bind fun q =>
        match known.get? p.method with
        | none => some (known.insert p.method q)
        | some first => if first = q then some known else none := by
  unfold addTo winnerName?
  cases p.winnerAmong traits with
  | error e => rfl
  | ok t =>
      show (match known.get? p.method with
        | none => (.ok (known.insert p.method t.qualifiedName) : Except DeclarationError _)
        | some first => if first = t.qualifiedName then .ok known
          else .error (.conflictingPreference p.method first t.qualifiedName)).toOption = _
      cases known.get? p.method with
      | none => rfl
      | some first =>
          show (if first = t.qualifiedName then (.ok known : Except DeclarationError _)
            else .error (.conflictingPreference p.method first t.qualifiedName)).toOption
              = if first = t.qualifiedName then some known else none
          split <;> rfl

theorem toOption_addAll_cons (host : String) (traits : List Trait) (known : SortedMap String)
    (p : PreferenceDecl) (rest : List PreferenceDecl) :
    (addAll host traits known (p :: rest)).1.toOption =
      (p.addTo traits known).toOption.bind fun next =>
        (addAll host traits next rest).1.toOption := by
  rw [addAll]
  cases p.addTo traits known with
  | error e => rfl
  | ok next => rfl

/-- **Lists of traits in which every preference names the same trait give the same preferences.** -/
theorem addAll_congr {host : String} {traits traits' : List Trait}
    {prefs : List PreferenceDecl}
    (h : ∀ p ∈ prefs, p.winnerName? traits = p.winnerName? traits') (known : SortedMap String) :
    (addAll host traits known prefs).1.toOption =
      (addAll host traits' known prefs).1.toOption := by
  induction prefs generalizing known with
  | nil => rfl
  | cons p rest ih =>
      -- both loops see the same name, so they go on from the same preferences or both stop
      rw [toOption_addAll_cons, toOption_addAll_cons, toOption_addTo, toOption_addTo,
        h p List.mem_cons_self]
      congr 1
      funext next
      exact ih (fun p hp => h p (List.mem_cons_of_mem _ hp)) next

/-- The trait that a preference names depends on the declared names only. -/
theorem winnerName?_eq_of_mem_iff {p : PreferenceDecl} {traits traits' : List Trait}
    (hd : Trait.Distinct traits) (hd' : Trait.Distinct traits')
    (hmem : ∀ n, n ∈ traits.map (·.name) ↔ n ∈ traits'.map (·.name)) :
    p.winnerName? traits = p.winnerName? traits' := by
  -- whatever is found on one side is found on the other
  have transfer : ∀ {ts us : List Trait}, Trait.Distinct ts → Trait.Distinct us →
      (∀ n, n ∈ ts.map (·.name) ↔ n ∈ us.map (·.name)) → ∀ {t : Trait},
      p.winnerAmong ts = .ok t → p.winnerName? us = some t.qualifiedName := by
    intro ts us hts hus hnames t ht
    obtain ⟨-, hdes⟩ := (Trait.findAmong_eq_ok_iff hts).mp (winnerAmong_eq_ok_iff.mp ht)
    rw [DeclaredName.designated_congr hnames] at hdes
    obtain ⟨u, hu, hname⟩ := List.mem_map.mp hdes.1
    have hfind : p.winnerAmong us = .ok u :=
      winnerAmong_eq_ok_iff.mpr ((Trait.findAmong_eq_ok_iff hus).mpr ⟨hu, hname ▸ hdes⟩)
    unfold winnerName?
    rw [hfind]
    exact congrArg (fun n => some (DeclaredName.qualified n)) hname
  cases hw : p.winnerAmong traits with
  | ok t =>
      rw [transfer hd hd' hmem hw]
      unfold winnerName?
      rw [hw]
      rfl
  | error e =>
      cases hw' : p.winnerAmong traits' with
      | ok t =>
          have := transfer hd' hd (fun n => (hmem n).symm) hw'
          unfold winnerName? at this
          rw [hw] at this
          cases this
      | error e' =>
          unfold winnerName?
          rw [hw, hw']
          rfl

end PreferenceDecl

/-! ## The superclass -/

/-- The superclass that a declaration stands for. -/
structure SuperclassDecl.Resolves (d : SuperclassDecl) (s : Superclass) : Prop where
  params : List.Forall₂ (fun p p' => p.resolve = .ok p') d.typeParams s.params
  /-- The arguments are those that are given, or one is made up for every parameter. -/
  args : (d.args = [] ∧ s.args = s.params.map fun _ => .auto)
    ∨ List.Forall₂ (fun a a' => a.resolve = .ok a') d.args s.args
  /-- If the parameters are known, there is an argument for each. -/
  arity : s.params = [] ∨ s.args.length = s.params.length

theorem SuperclassDecl.resolves_of_resolve {d : SuperclassDecl} {host : String} {s : Superclass}
    (hr : d.resolve host = .ok s) : d.Resolves s := by
  unfold resolve at hr
  obtain ⟨name, -, hr⟩ := bind_eq_ok.mp hr
  obtain ⟨params, hparams, hr⟩ := bind_eq_ok.mp hr
  have hparams := mapM_eq_ok_iff.mp (mapError_eq_ok.mp hparams)
  by_cases hargs : d.args.isEmpty = true
  · rw [if_pos hargs] at hr
    rw [← pure_eq_ok.mp hr]
    exact ⟨hparams, Or.inl ⟨List.isEmpty_iff.mp hargs, rfl⟩, Or.inr (List.length_map _)⟩
  · rw [if_neg hargs] at hr
    by_cases harity : (!params.isEmpty && params.length ≠ d.args.length) = true
    · rw [if_pos harity] at hr
      cases hr
    · rw [if_neg harity] at hr
      obtain ⟨args, hargs, hr⟩ := bind_eq_ok.mp hr
      have hargs := mapM_eq_ok_iff.mp (mapError_eq_ok.mp hargs)
      rw [← pure_eq_ok.mp hr]
      refine ⟨hparams, Or.inr hargs, or_iff_not_imp_left.mpr fun hne => ?_⟩
      show args.length = params.length
      rw [← hargs.length_eq]
      refine by_contra fun hlength => harity ?_
      simp [show params ≠ [] from hne, Ne.symm hlength]

/-! ## The host -/

namespace HostDecl

theorem resolveParts_eq_ok_iff {d : HostDecl} {index : TraitIndex}
    {parts : DeclaredName × List Trait × Option Superclass} :
    d.resolveParts index = .ok parts ↔
      ∃ name found superclass, DeclaredName.ofQualified d.name = .ok name ∧ d.traits ≠ []
        ∧ d.findTraits index = .ok found
        ∧ d.superclass.mapM (fun s => s.resolve d.name) = .ok superclass
        ∧ parts = (name, Trait.distinguishAll found, superclass) := by
  unfold resolveParts
  rw [bind_eq_ok]
  refine ⟨?_, ?_⟩
  · intro hall
    obtain ⟨name, hname, h⟩ := hall
    by_cases he : d.traits.isEmpty
    · rw [if_pos he] at h
      cases h
    · rw [if_neg he] at h
      obtain ⟨found, hfound, h⟩ := bind_eq_ok.mp h
      obtain ⟨superclass, hsuper, h⟩ := bind_eq_ok.mp h
      exact ⟨name, found, superclass, mapError_eq_ok.mp hname,
        fun hn => he (List.isEmpty_iff.mpr hn), hfound, hsuper, (pure_eq_ok.mp h).symm⟩
  · intro hall
    obtain ⟨name, found, superclass, hname, hne, hfound, hsuper, rfl⟩ := hall
    refine ⟨name, mapError_eq_ok.mpr hname, ?_⟩
    rw [if_neg (fun he => hne (List.isEmpty_iff.mp he))]
    exact bind_eq_ok.mpr ⟨found, hfound, bind_eq_ok.mpr ⟨superclass, hsuper, rfl⟩⟩

/-- **A host is resolved exactly if each of its parts is, and it consists of them.** -/
theorem resolve_eq_ok_iff {d : HostDecl} {index : TraitIndex} {h : Host} :
    (d.resolve index).1 = .ok h ↔
      ∃ name found superclass preferences, DeclaredName.ofQualified d.name = .ok name
        ∧ d.traits ≠ [] ∧ d.findTraits index = .ok found
        ∧ d.superclass.mapM (fun s => s.resolve d.name) = .ok superclass
        ∧ (PreferenceDecl.addAll d.name (Trait.distinguishAll found) .empty d.preferences).1
            = .ok preferences
        ∧ h = ⟨name, Trait.distinguishAll found, superclass, preferences⟩ := by
  unfold resolve
  refine ⟨?_, ?_⟩
  · intro hr
    split at hr
    · cases hr
    · rename_i name traits superclass hparts
      obtain ⟨name', found, superclass', hname, hne, hfound, hsuper, he⟩ :=
        resolveParts_eq_ok_iff.mp hparts
      cases he
      obtain ⟨preferences, hprefs, rfl⟩ := map_eq_ok.mp hr
      exact ⟨name, found, superclass, preferences, hname, hne, hfound, hsuper, hprefs, rfl⟩
  · intro hall
    obtain ⟨name, found, superclass, preferences, hname, hne, hfound, hsuper, hprefs, rfl⟩ := hall
    have hparts := resolveParts_eq_ok_iff.mpr
      ⟨name, found, superclass, hname, hne, hfound, hsuper, rfl⟩
    rw [hparts]
    exact map_eq_ok.mpr ⟨preferences, hprefs, rfl⟩

/-- **A host extends what its declaration asks for**, and nothing if it asks for nothing. -/
theorem superclass_of_resolve {d : HostDecl} {index : TraitIndex} {h : Host}
    (hr : (d.resolve index).1 = .ok h) :
    (∀ s, h.superclass = some s → ∃ s₀, d.superclass = some s₀ ∧ s₀.resolve d.name = .ok s)
      ∧ ∀ s₀, d.superclass = some s₀ → ∃ s, h.superclass = some s ∧ s₀.resolve d.name = .ok s := by
  obtain ⟨_, _, superclass, _, -, -, -, hsuper, -, rfl⟩ := resolve_eq_ok_iff.mp hr
  cases hdecl : d.superclass with
  | none =>
      rw [hdecl] at hsuper
      rw [← pure_eq_ok.mp hsuper]
      exact ⟨nofun, nofun⟩
  | some s₀ =>
      rw [hdecl] at hsuper
      obtain ⟨s, hr', he⟩ := bind_eq_ok.mp hsuper
      rw [← pure_eq_ok.mp he]
      refine ⟨fun s' hs => ⟨s₀, rfl, ?_⟩, fun s₀' hs₀ => ⟨s, rfl, ?_⟩⟩
      · exact Option.some.inj hs ▸ hr'
      · exact Option.some.inj hs₀ ▸ hr'

theorem traits_of_resolve {d : HostDecl} {index : TraitIndex} {h : Host}
    (hr : (d.resolve index).1 = .ok h) :
    ∃ found, d.findTraits index = .ok found ∧ List.Forall₂ Trait.Requalified found h.traits := by
  obtain ⟨_, found, _, _, -, -, hfound, -, -, rfl⟩ := resolve_eq_ok_iff.mp hr
  exact ⟨found, hfound, Trait.forall₂_distinguishAll found⟩

/-- **A resolved host composes no trait twice.** -/
theorem distinct_of_resolve {d : HostDecl} {index : TraitIndex} {h : Host}
    (hr : (d.resolve index).1 = .ok h) : Trait.Distinct h.traits := by
  obtain ⟨found, hfound, hf⟩ := traits_of_resolve hr
  exact (findTraits_eq_ok_iff.mp hfound).2.of_map_name_eq (Trait.map_name_of_forall₂ hf)

/-- Each trait of a host is one that the index has, up to its qualifier. -/
theorem exists_requalified_of_resolve {index : TraitIndex} {d : HostDecl} {h : Host}
    (hr : (d.resolve index).1 = .ok h) {u : Trait} (hu : u ∈ h.traits) :
    ∃ t ∈ index.traits, Trait.Requalified t u := by
  obtain ⟨found, hfound, hf⟩ := traits_of_resolve hr
  obtain ⟨t, ht, hreq⟩ := exists_rel_of_mem hf hu
  obtain ⟨_, -, hfind⟩ := exists_rel_of_mem (findTraits_eq_ok_iff.mp hfound).1 ht
  exact ⟨t, TraitIndex.mem_of_find hfind, hreq⟩

end HostDecl

/-! ## Two boxes -/

/-- A trait with one variable and one method that gives a value of it. -/
def Trait.box (package qualifier : String) : Trait :=
  let content : TypeRef := .param ⟨"T", some qualifier⟩ [] none .scalar
  { type := ⟨⟨package, "Box"⟩, [content]⟩
    qualifier
    typeParams := [⟨⟨"T", some qualifier⟩, [], none⟩]
    methods := [⟨"get", [], content, [], [], .concrete, false, none⟩]
    constants := []
    interfaces := [] }

/-- Two traits of one simple name, which give one method. -/
def Trait.boxes : List Trait := [.box "a" "Box", .box "b" "Box"]

/-- A class that composes both and prefers the second. -/
def HostDecl.crate : HostDecl :=
  { name := "app.Crate"
    traits := ["a.Box", "b.Box"]
    superclass := none
    preferences := [⟨"get", "b.Box"⟩] }

/-- The class as it is resolved. -/
def Host.crate : Host :=
  { name := ⟨"app", "Crate"⟩
    traits := [.box "a" "Box", .box "b" "Box2"]
    superclass := none
    preferences := ⟨[("get", "b.Box")]⟩ }

/-- The second box is moved to a qualifier of its own. -/
theorem HostDecl.resolve_crate :
    (HostDecl.crate.resolve (TraitIndex.ofList Trait.boxes)).1 = .ok Host.crate :=
  toOption_eq_some_iff.mp (by decide +kernel)

end TraitWeaver
