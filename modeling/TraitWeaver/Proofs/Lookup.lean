import Mathlib.Data.List.Induction
import Mathlib.Data.List.Nodup
import TraitWeaver.Proofs.SortedMap
import TraitWeaver.Trait.Index

/-!
# What a name means

A trait is referred to by its qualified name, or by its simple name as long as
only one trait has it. `Trait.findAmong` decides this by two searches over a
list, and a list has an order; the meaning must not.

`Designated` says what a name means in terms of the *set* of declared names
alone, and `findAmong_eq_ok_iff` that the searches find just that. Whatever has
the same names — the traits in another order, the traits under other qualifiers
— then resolves every name alike.
-/

namespace TraitWeaver

/--
Among some declared names, a text means `n`: it is the qualified name of `n`, or
nobody's qualified name and the simple name of `n` alone.
-/
def DeclaredName.Designated (names : List DeclaredName) (text : String) (n : DeclaredName) :
    Prop :=
  n ∈ names ∧
    (n.qualified = text ∨
      (∀ m ∈ names, m.qualified ≠ text) ∧ n.simple = text ∧ ∀ m ∈ names, m.simple = text → m = n)

theorem DeclaredName.designated_congr {names names' : List DeclaredName}
    (h : ∀ n, n ∈ names ↔ n ∈ names') {text : String} {n : DeclaredName} :
    Designated names text n ↔ Designated names' text n := by
  unfold Designated
  simp only [h]

theorem filter_eq_singleton {α : Type} [DecidableEq α] {l : List α} (hl : l.Nodup) {a : α}
    {p : α → Bool} (ha : a ∈ l) (hp : p a) (honly : ∀ b ∈ l, p b → b = a) :
    l.filter p = [a] := by
  -- the filter cannot tell `p` from equality with `a`
  have hcongr : l.filter p = l.filter (· = a) := by
    refine List.filter_congr (fun b hb => ?_)
    by_cases he : b = a
    · rw [he, hp, decide_eq_true rfl]
    · rw [decide_eq_false he]
      exact Bool.eq_false_iff.mpr (fun hpb => he (honly b hb hpb))
  rw [hcongr, List.filter_eq, List.count_eq_one_of_mem hl ha]
  rfl

namespace Trait

/-- No two of the traits have one qualified name. -/
def Distinct (traits : List Trait) : Prop := (traits.map (·.qualifiedName)).Nodup

theorem Distinct.nodup {traits : List Trait} (h : Distinct traits) : traits.Nodup := h.of_map

theorem Distinct.eq {traits : List Trait} (h : Distinct traits) {t u : Trait}
    (ht : t ∈ traits) (hu : u ∈ traits) (he : t.qualifiedName = u.qualifiedName) : t = u :=
  List.inj_on_of_nodup_map h ht hu he

/--
What looking up a name among some traits comes to. A qualified name goes before
simple names, and a simple name means a trait only if no other trait has it.
Nothing is said of an order, so candidates may be listed in any.
-/
inductive Means (traits : List Trait) (text : String) : Except DeclarationError Trait → Prop where
  | qualified {t : Trait} (ht : t ∈ traits) (hqualified : t.qualifiedName = text) :
      Means traits text (.ok t)
  | simple {t : Trait} (hno : ∀ u ∈ traits, u.qualifiedName ≠ text) (ht : t ∈ traits)
      (hsimple : t.name.simple = text) (honly : ∀ u ∈ traits, u.name.simple = text → u = t) :
      Means traits text (.ok t)
  | unknown (hno : ∀ u ∈ traits, u.qualifiedName ≠ text)
      (hnone : ∀ u ∈ traits, u.name.simple ≠ text) :
      Means traits text (.error (.unknownTrait text))
  | ambiguous {t u : Trait} {candidates : List String}
      (hno : ∀ u ∈ traits, u.qualifiedName ≠ text) (ht : t ∈ traits) (hu : u ∈ traits)
      (hne : t ≠ u) (hts : t.name.simple = text) (hus : u.name.simple = text)
      (hnodup : candidates.Nodup)
      (hall : ∀ q, q ∈ candidates ↔ ∃ v ∈ traits, v.name.simple = text ∧ v.qualifiedName = q) :
      Means traits text (.error (.ambiguousTrait text candidates))

/-- Two lookups come to the same: to one trait, or to one refusal with the same candidates. -/
inductive SameOutcome : Except DeclarationError Trait → Except DeclarationError Trait → Prop where
  | found (t : Trait) : SameOutcome (.ok t) (.ok t)
  | unknown (text : String) :
      SameOutcome (.error (.unknownTrait text)) (.error (.unknownTrait text))
  | ambiguous (text : String) {candidates candidates' : List String}
      (h : candidates.Perm candidates') :
      SameOutcome (.error (.ambiguousTrait text candidates))
        (.error (.ambiguousTrait text candidates'))

section

variable {traits traits' : List Trait} {text : String} {t : Trait}
  {outcome outcome' : Except DeclarationError Trait}

/-- What a name means depends on which traits there are, and not on their order. -/
theorem Means.congr (h : ∀ t, t ∈ traits ↔ t ∈ traits') (hm : Means traits text outcome) :
    Means traits' text outcome := by
  have hforall : ∀ {P : Trait → Prop}, (∀ t ∈ traits, P t) → ∀ t ∈ traits', P t :=
    fun hP t ht => hP t ((h t).mpr ht)
  cases hm with
  | qualified ht hq => exact .qualified ((h _).mp ht) hq
  | simple hno ht hs honly => exact .simple (hforall hno) ((h _).mp ht) hs (hforall honly)
  | unknown hno hnone => exact .unknown (hforall hno) (hforall hnone)
  | ambiguous hno ht hu hne hts hus hnodup hall =>
      refine .ambiguous (hforall hno) ((h _).mp ht) ((h _).mp hu) hne hts hus hnodup fun q => ?_
      simp only [hall q, h]

/-- **A name has one meaning.** -/
theorem Means.sameOutcome (h : Distinct traits) (hm : Means traits text outcome)
    (hm' : Means traits text outcome') : SameOutcome outcome outcome' := by
  cases hm with
  | @qualified t ht hq =>
      cases hm' with
      | qualified ht' hq' => exact h.eq ht ht' (hq.trans hq'.symm) ▸ .found t
      | simple hno | unknown hno | ambiguous hno => exact absurd hq (hno t ht)
  | @simple t hno ht hs honly =>
      cases hm' with
      | qualified ht' hq' => exact absurd hq' (hno _ ht')
      | simple _ ht' hs' _ => exact honly _ ht' hs' ▸ .found _
      | unknown _ hnone => exact absurd hs (hnone t ht)
      | ambiguous _ ht' hu' hne hts hus =>
          exact absurd ((honly _ ht' hts).trans (honly _ hu' hus).symm) hne
  | unknown hno hnone =>
      cases hm' with
      | qualified ht' hq' => exact absurd hq' (hno _ ht')
      | simple _ ht' hs' _ => exact absurd hs' (hnone _ ht')
      | unknown => exact .unknown text
      | ambiguous _ ht' _ _ hts' => exact absurd hts' (hnone _ ht')
  | ambiguous hno ht hu hne hts hus hnodup hall =>
      cases hm' with
      | qualified ht' hq' => exact absurd hq' (hno _ ht')
      | simple _ _ _ honly => exact absurd ((honly _ ht hts).trans (honly _ hu hus).symm) hne
      | unknown _ hnone => exact absurd hts (hnone _ ht)
      | ambiguous _ _ _ _ _ _ hnodup' hall' =>
          refine .ambiguous text ((List.perm_ext_iff_of_nodup hnodup hnodup').mpr fun q => ?_)
          rw [hall q, hall' q]

/-- Finding a trait is a matter of the names that are declared. -/
theorem means_ok_iff (h : Distinct traits) :
    Means traits text (.ok t) ↔
      t ∈ traits ∧ DeclaredName.Designated (traits.map (·.name)) text t.name := by
  unfold DeclaredName.Designated
  simp only [List.forall_mem_map]
  refine ⟨?_, ?_⟩
  · intro hm
    cases hm with
    | qualified ht hq => exact ⟨ht, List.mem_map_of_mem ht, Or.inl hq⟩
    | simple hno ht hs honly =>
        exact ⟨ht, List.mem_map_of_mem ht,
          Or.inr ⟨hno, hs, fun u hu hus => congrArg name (honly u hu hus)⟩⟩
  · rintro ⟨ht, -, hq | ⟨hno, hs, honly⟩⟩
    · exact .qualified ht hq
    · refine .simple hno ht hs fun u hu hus => ?_
      exact h.eq hu ht (congrArg DeclaredName.qualified (honly u hu hus))

/-! ### The searches -/

theorem means_findSimple (h : Distinct traits) (hno : ∀ u ∈ traits, u.qualifiedName ≠ text) :
    Means traits text (findSimple traits text) := by
  have hmem : ∀ u,
      u ∈ traits.filter (·.name.simple = text) ↔ u ∈ traits ∧ u.name.simple = text := by
    intro u
    rw [List.mem_filter, decide_eq_true_eq]
  have hnames : ((traits.filter (·.name.simple = text)).map (·.qualifiedName)).Nodup :=
    h.sublist (List.filter_sublist.map _)
  unfold findSimple
  generalize traits.filter (·.name.simple = text) = found at hmem hnames ⊢
  match found with
  | [] => exact .unknown hno fun u hu hs => absurd ((hmem u).mpr ⟨hu, hs⟩) List.not_mem_nil
  | [t] =>
      obtain ⟨ht, hs⟩ := (hmem t).mp List.mem_cons_self
      exact .simple hno ht hs fun u hu hus => List.mem_singleton.mp ((hmem u).mpr ⟨hu, hus⟩)
  | t :: u :: rest =>
      have hne : t ≠ u := by
        rintro rfl
        exact (List.nodup_cons.mp hnames).1 List.mem_cons_self
      obtain ⟨ht, hts⟩ := (hmem t).mp List.mem_cons_self
      obtain ⟨hu, hus⟩ := (hmem u).mp (List.mem_cons_of_mem _ List.mem_cons_self)
      refine .ambiguous hno ht hu hne hts hus hnames fun q => ?_
      simp only [List.mem_map, hmem, and_assoc]

/-- **Searching a list comes to what the name means.** -/
theorem means_findAmong (h : Distinct traits) (text : String) :
    Means traits text (findAmong traits text) := by
  unfold findAmong
  cases hfind : traits.find? (·.qualifiedName = text) with
  | some u =>
      exact .qualified (List.mem_of_find?_eq_some hfind) (by simpa using List.find?_some hfind)
  | none => exact means_findSimple h fun u hu => by simpa using List.find?_eq_none.mp hfind u hu

/-- **What is found is what the name means.** -/
theorem findAmong_eq_ok_iff (h : Distinct traits) :
    findAmong traits text = .ok t ↔
      t ∈ traits ∧ DeclaredName.Designated (traits.map (·.name)) text t.name := by
  have hfound := means_findAmong h text
  rw [← means_ok_iff h]
  refine ⟨fun he => he ▸ hfound, fun hm => ?_⟩
  generalize findAmong traits text = outcome at hfound
  cases hfound.sameOutcome h hm
  rfl

theorem mem_of_findSimple (h : findSimple traits text = .ok t) : t ∈ traits := by
  unfold findSimple at h
  split at h
  · cases h
  · rename_i u hl
    obtain rfl := Except.ok.inj h
    have hu : u ∈ traits.filter (·.name.simple = text) := by
      rw [hl]
      exact List.mem_cons_self
    exact (List.mem_filter.mp hu).1
  · cases h

end

end Trait

/-! ## The traits of a round -/

namespace TraitIndex

/-- Every trait is kept once, under its qualified name. -/
structure WellKeyed (index : TraitIndex) : Prop where
  /-- The keys increase. -/
  increasing : SortedMap.Increasing index.byName.entries
  /-- Each key is the name of its trait. -/
  keyed : ∀ e ∈ index.byName.entries, e.1 = e.2.qualifiedName

theorem wellKeyed_empty : WellKeyed empty where
  increasing := List.Pairwise.nil
  keyed := by intro e he; exact absurd he List.not_mem_nil

theorem WellKeyed.insert {index : TraitIndex} (h : WellKeyed index) (t : Trait) :
    WellKeyed (index.insert t) where
  increasing := SortedMap.increasing_insertEntry h.increasing _ _
  keyed := by
    intro e he
    rcases SortedMap.mem_insertEntry he with rfl | he
    · rfl
    · exact h.keyed e he

theorem mem_traits_insert {index : TraitIndex} {t u : Trait}
    (h : u ∈ (index.insert t).traits) : u = t ∨ u ∈ index.traits := by
  obtain ⟨e, he, rfl⟩ := List.mem_map.mp h
  rcases SortedMap.mem_insertEntry he with rfl | he
  · exact Or.inl rfl
  · exact Or.inr (List.mem_map_of_mem he)

theorem length_traits_insert {index : TraitIndex} {t : Trait}
    (h : index.get? t.qualifiedName = none) :
    (index.insert t).traits.length = index.traits.length + 1 :=
  ((SortedMap.insertEntry_perm h t).map Prod.snd).length_eq

/-- **Every index that was filled by adding traits is well keyed.** -/
theorem wellKeyed_ofList (traits : List Trait) : WellKeyed (ofList traits) := by
  have hfold : ∀ index, WellKeyed index → WellKeyed (traits.foldl insert index) := by
    induction traits with
    | nil => exact fun index h => h
    | cons t rest ih => exact fun index h => ih _ (h.insert t)
  exact hfold empty wellKeyed_empty

theorem WellKeyed.get?_qualifiedName {index : TraitIndex} (h : WellKeyed index) {t : Trait}
    (ht : t ∈ index.traits) : index.get? t.qualifiedName = some t := by
  obtain ⟨⟨key, u⟩, he, rfl⟩ := List.mem_map.mp ht
  have hkey : key = u.qualifiedName := h.keyed _ he
  exact SortedMap.lookup_of_mem h.increasing (hkey ▸ he)

theorem mem_of_get? {index : TraitIndex} {name : String} {t : Trait}
    (h : index.get? name = some t) : t ∈ index.traits :=
  List.mem_map_of_mem (mem_of_lookup_eq_some h)

theorem mem_of_find {index : TraitIndex} {name : String} {t : Trait}
    (h : index.find name = .ok t) : t ∈ index.traits := by
  unfold find at h
  split at h
  · rename_i u hget
    obtain rfl := Except.ok.inj h
    exact mem_of_get? hget
  · exact Trait.mem_of_findSimple h

theorem WellKeyed.qualifiedName_of_get? {index : TraitIndex} (h : WellKeyed index) {name : String}
    {t : Trait} (hget : index.get? name = some t) : t.qualifiedName = name :=
  (h.keyed _ (mem_of_lookup_eq_some hget)).symm

/-- The traits are listed in the order of their names. -/
theorem WellKeyed.pairwise_names {index : TraitIndex} (h : WellKeyed index) :
    (index.traits.map (·.qualifiedName)).Pairwise fun a b => compare a b = .lt := by
  have hkeys : index.traits.map (·.qualifiedName) = index.byName.entries.map Prod.fst := by
    unfold traits SortedMap.values
    rw [List.map_map]
    exact List.map_congr_left fun e he => (h.keyed e he).symm
  rw [hkeys]
  exact List.pairwise_map.mpr h.increasing

theorem WellKeyed.distinct {index : TraitIndex} (h : WellKeyed index) :
    Trait.Distinct index.traits := by
  refine h.pairwise_names.imp fun hlt he => ?_
  rw [he, Std.ReflOrd.compare_self] at hlt
  cases hlt

/-- **An index comes to what the name means**, though it asks its keys and not its traits. -/
theorem WellKeyed.means_find {index : TraitIndex} (h : WellKeyed index) (name : String) :
    Trait.Means index.traits name (index.find name) := by
  unfold find
  cases hget : index.get? name with
  | some t => exact .qualified (mem_of_get? hget) (h.qualifiedName_of_get? hget)
  | none =>
      refine Trait.means_findSimple h.distinct fun u hu he => ?_
      have hu := h.get?_qualifiedName hu
      rw [he, hget] at hu
      cases hu

/-! ## The traits that were added -/

theorem get?_insert (index : TraitIndex) (t : Trait) (name : String) :
    (index.insert t).get? name = if name = t.qualifiedName then some t else index.get? name :=
  SortedMap.get?_insert index.byName t.qualifiedName name t

/-- An index that has been filled keeps the last trait of every name, in the order of the names. -/
structure Keeps (index : TraitIndex) (added : List Trait) : Prop where
  /-- Under a name is the last trait that was added with it. -/
  last : ∀ name, index.get? name = (added.filter (·.qualifiedName = name)).getLast?
  /-- The traits that are listed are these and no others. -/
  listed : ∀ t, t ∈ index.traits ↔
    (added.filter (·.qualifiedName = t.qualifiedName)).getLast? = some t
  increasing : (index.traits.map (·.qualifiedName)).Pairwise fun a b => compare a b = .lt

/-- **Of the traits with one name the last one is kept.** -/
theorem get?_ofList (added : List Trait) (name : String) :
    (ofList added).get? name = (added.filter (·.qualifiedName = name)).getLast? := by
  induction added using List.reverseRecOn with
  | nil => rfl
  | append_singleton before t ih =>
      have hstep : ofList (before ++ [t]) = (ofList before).insert t := by
        unfold ofList
        rw [List.foldl_append]
        rfl
      rw [hstep, get?_insert, ih, List.filter_append]
      by_cases hname : name = t.qualifiedName
      · rw [if_pos hname, List.filter_cons_of_pos (by simpa using hname.symm), List.filter_nil,
          List.getLast?_append]
        rfl
      · rw [if_neg hname, List.filter_cons_of_neg (by simpa using Ne.symm hname), List.filter_nil,
          List.append_nil]

theorem keeps_ofList (added : List Trait) : Keeps (ofList added) added where
  last := get?_ofList added
  listed t := by
    rw [← get?_ofList]
    exact ⟨(wellKeyed_ofList added).get?_qualifiedName, mem_of_get?⟩
  increasing := (wellKeyed_ofList added).pairwise_names

/-- Where no two traits have one name, none is replaced. -/
theorem mem_traits_ofList_iff {added : List Trait} (h : Trait.Distinct added) {t : Trait} :
    t ∈ (ofList added).traits ↔ t ∈ added := by
  rw [(keeps_ofList added).listed]
  refine ⟨fun hlast => List.mem_of_mem_filter (List.mem_of_getLast? hlast), fun ht => ?_⟩
  have hone : added.filter (·.qualifiedName = t.qualifiedName) = [t] :=
    filter_eq_singleton h.nodup ht (decide_eq_true rfl)
      fun u hu hut => h.eq hu ht (of_decide_eq_true hut)
  rw [hone]
  rfl

/--
**A list of traits and an index of them look up every name alike**, whatever
order they are listed in and were added in; and an index holds the last trait
that was added under each name.
-/
theorem looksUpAlike_and_keeps :
    (∀ listed added : List Trait, Trait.Distinct listed → added.Perm listed → ∀ name,
        Trait.Means listed name (Trait.findAmong listed name)
          ∧ Trait.Means listed name ((ofList added).find name)
          ∧ Trait.SameOutcome (Trait.findAmong listed name) ((ofList added).find name))
      ∧ ∀ added : List Trait, Keeps (ofList added) added := by
  refine ⟨?_, keeps_ofList⟩
  intro listed added hlisted hperm name
  have hadded : Trait.Distinct added := (hperm.map _).nodup_iff.mpr hlisted
  have hmem : ∀ t, t ∈ (ofList added).traits ↔ t ∈ listed := fun t =>
    (mem_traits_ofList_iff hadded).trans hperm.mem_iff
  have hlist := Trait.means_findAmong hlisted name
  have hindex := ((wellKeyed_ofList added).means_find name).congr hmem
  exact ⟨hlist, hindex, hlist.sameOutcome hlisted hindex⟩

/-- Two boxes and two lids of different packages. One lid is in the default package, so that its
qualified name is the simple name of both. -/
def namesakes : List Trait :=
  [⟨"lib", "Box"⟩, ⟨"lib", "Lid"⟩, ⟨"", "Lid"⟩, ⟨"app", "Box"⟩].map
    fun name => ⟨.plain name, name.simple, [], [], [], []⟩

theorem looksUpAlike_and_keeps_namesakes :
    Trait.Distinct namesakes ∧ namesakes.reverse.Perm namesakes
      ∧ Trait.findAmong namesakes "Box" = .error (.ambiguousTrait "Box" ["lib.Box", "app.Box"])
      ∧ (ofList namesakes.reverse).find "Box" =
          .error (.ambiguousTrait "Box" ["app.Box", "lib.Box"])
      ∧ ((ofList namesakes.reverse).find "Lid").map (·.name) = .ok ⟨"", "Lid"⟩
      ∧ ∀ name, Trait.SameOutcome (Trait.findAmong namesakes name)
          ((ofList namesakes.reverse).find name) := by
  have hdistinct : Trait.Distinct namesakes := by
    unfold Trait.Distinct
    decide +kernel
  have hperm := List.reverse_perm namesakes
  have hlookup := looksUpAlike_and_keeps.1 namesakes namesakes.reverse hdistinct hperm
  exact ⟨hdistinct, hperm, by decide +kernel, by decide +kernel, by decide +kernel,
    fun name => (hlookup name).2.2⟩

end TraitIndex

end TraitWeaver
