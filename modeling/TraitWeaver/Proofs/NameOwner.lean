import Mathlib.Data.List.Nodup
import TraitWeaver.Proofs.NameOrder
import TraitWeaver.Source.NameTable

/-!
# Who owns a simple name

The types of a file are made known in three passes, and each pass may take a
simple name from a type that had it. What counts in the end is one question,
`NameTable.owner?`, so everything here is said of its answer.

* A type that is added **with preference** owns its simple name from then on; one
  that is added **without** owns it only if nobody did.
* Hence a pass over the types of one package gives that package every simple
  name it bears, and the pass over foreign types gives a name to the first one.
* `OwnsName` says in terms of the *set* of types who that is in the end, and
  `owner?_ofTypes_eq_some_iff` that it is so. The set has to come in increasing
  order, for it is by the order that the first foreign type is the least.
-/

namespace TraitWeaver

/--
Among the types of a file of a package, `n` owns its simple name: it is of the
file's own package; or no such type bears the name and it is of the language
package; or no type of either does and its package comes first.
-/
def DeclaredName.OwnsName (package : String) (types : List DeclaredName) (n : DeclaredName) :
    Prop :=
  n ∈ types ∧
    (n.package = package ∨ ⟨package, n.simple⟩ ∉ types ∧
      (n.package = languagePackage ∨ ⟨languagePackage, n.simple⟩ ∉ types ∧
        ∀ m ∈ types, m.simple = n.simple → (Ord.compare n.package m.package).isLE))

namespace NameTable

theorem owner?_eq_find? (r : NameTable) (s : String) :
    r.owner? s = r.names.find? (·.simple = s) :=
  List.head?_filter

theorem mem_names_of_owner? {r : NameTable} {s : String} {n : DeclaredName}
    (h : r.owner? s = some n) : n ∈ r.names := by
  rw [owner?_eq_find?] at h
  exact List.mem_of_find?_eq_some h

theorem simple_of_owner? {r : NameTable} {s : String} {n : DeclaredName}
    (h : r.owner? s = some n) : n.simple = s := by
  rw [owner?_eq_find?] at h
  have hs := List.find?_some h
  exact of_decide_eq_true hs

/-! ## Adding a type -/

theorem package_add (r : NameTable) (n : DeclaredName) (preferred : Bool) :
    (r.add n preferred).package = r.package := by
  unfold add
  split
  · rfl
  · split
    · rfl
    · rfl

theorem candidates_add_preferred (r : NameTable) (n : DeclaredName) (s : String) :
    (r.add n true).candidates s =
      if n.simple = s then n :: (r.candidates s).erase n else r.candidates s := by
  show List.filter (fun m => decide (m.simple = s)) (n :: r.names.erase n) = _
  by_cases hs : n.simple = s
  · rw [if_pos hs, List.filter_cons_of_pos (by simpa using hs), ← List.erase_filter]
    rfl
  · -- the type that moves to the front does not bear the name
    have hno : n ∉ r.names.filter (fun m => decide (m.simple = s)) :=
      fun h => hs (of_decide_eq_true (List.mem_filter.mp h).2)
    rw [if_neg hs, List.filter_cons_of_neg (by simpa using hs), ← List.erase_filter,
      List.erase_of_not_mem hno]
    rfl

theorem mem_candidates_iff {r : NameTable} {s : String} {n : DeclaredName} :
    n ∈ r.candidates s ↔ n ∈ r.names ∧ n.simple = s :=
  List.mem_filter.trans (and_congr_right fun _ => decide_eq_true_iff)

theorem candidates_add_later (r : NameTable) (n : DeclaredName) (s : String) :
    (r.add n false).candidates s =
      if n.simple = s ∧ n ∉ r.candidates s then r.candidates s ++ [n] else r.candidates s := by
  unfold add
  rw [if_neg Bool.false_ne_true]
  by_cases hn : n ∈ r.names
  · rw [if_pos hn, if_neg]
    rintro ⟨hs, hno⟩
    exact hno (mem_candidates_iff.mpr ⟨hn, hs⟩)
  · have hno : n ∉ r.candidates s := fun h => hn (mem_candidates_iff.mp h).1
    rw [if_neg hn, candidates, List.filter_append]
    by_cases hs : n.simple = s
    · rw [if_pos ⟨hs, hno⟩, List.filter_cons_of_pos (by simpa using hs)]
      rfl
    · rw [if_neg fun h => hs h.1, List.filter_cons_of_neg (by simpa using hs), List.filter_nil,
        List.append_nil]
      rfl

/-- **A preferred type takes its simple name**, and no other name changes hands. -/
theorem owner?_add_preferred (r : NameTable) (n : DeclaredName) (s : String) :
    (r.add n true).owner? s = if n.simple = s then some n else r.owner? s := by
  rw [owner?, candidates_add_preferred]
  by_cases hs : n.simple = s
  · rw [if_pos hs, if_pos hs, List.head?_cons]
  · rw [if_neg hs, if_neg hs]
    rfl

/-- **Any other type gets its simple name only if it is free.** -/
theorem owner?_add_later (r : NameTable) (n : DeclaredName) (s : String) :
    (r.add n false).owner? s = (r.owner? s).or (if n.simple = s then some n else none) := by
  rw [owner?, owner?, candidates_add_later]
  by_cases hs : n.simple = s
  · rw [if_pos hs]
    by_cases hn : n ∈ r.candidates s
    · -- the type is known, so its simple name has an owner
      rw [if_neg fun h => h.2 hn]
      obtain ⟨o, ho⟩ := Option.isSome_iff_exists.mp (List.isSome_head?.mpr (List.ne_nil_of_mem hn))
      rw [ho]
      rfl
    · rw [if_pos ⟨hs, hn⟩, List.head?_append]
      rfl
  · rw [if_neg fun h => hs h.1, if_neg hs, Option.or_none]

/-! ## Adding the types of a file -/

theorem package_foldl_add (preferred : Bool) (types : List DeclaredName) (r : NameTable) :
    (types.foldl (·.add · preferred) r).package = r.package := by
  induction types generalizing r with
  | nil => rfl
  | cons n rest ih => rw [List.foldl_cons, ih, package_add]

/-- A pass without preference gives every free name to the first type that bears it. -/
theorem owner?_foldl_later (types : List DeclaredName) (r : NameTable) (s : String) :
    (types.foldl (·.add · false) r).owner? s = (r.owner? s).or (types.find? (·.simple = s)) := by
  induction types generalizing r with
  | nil => exact Option.or_none.symm
  | cons n rest ih =>
      rw [List.foldl_cons, ih, owner?_add_later, Option.or_assoc]
      by_cases hs : n.simple = s
      · rw [if_pos hs, List.find?_cons_of_pos (by simpa using hs)]
        rfl
      · rw [if_neg hs, List.find?_cons_of_neg (by simpa using hs)]
        rfl

/-- A pass with preference over types of one package gives that package every name it bears. -/
theorem owner?_foldl_preferred {package : String} {types : List DeclaredName}
    (h : ∀ n ∈ types, n.package = package) (r : NameTable) (s : String) :
    (types.foldl (·.add · true) r).owner? s =
      if ⟨package, s⟩ ∈ types then some ⟨package, s⟩ else r.owner? s := by
  induction types generalizing r with
  | nil => exact (if_neg List.not_mem_nil).symm
  | cons n rest ih =>
      obtain ⟨hn, hrest⟩ := List.forall_mem_cons.mp h
      rw [List.foldl_cons, ih hrest, owner?_add_preferred]
      by_cases hlater : (⟨package, s⟩ : DeclaredName) ∈ rest
      · rw [if_pos hlater, if_pos (List.mem_cons_of_mem _ hlater)]
      · rw [if_neg hlater]
        by_cases hs : n.simple = s
        · have he : n = ⟨package, s⟩ := by rw [← hn, ← hs]
          rw [if_pos hs, he, if_pos List.mem_cons_self]
        · have hno : (⟨package, s⟩ : DeclaredName) ∉ n :: rest := by
            intro hm
            rcases List.mem_cons.mp hm with he | hm
            · exact hs (congrArg DeclaredName.simple he).symm
            · exact hlater hm
          rw [if_neg hs, if_neg hno]

theorem package_addAll (r : NameTable) (types : List DeclaredName) :
    (r.addAll types).package = r.package := by
  unfold addAll
  rw [package_foldl_add, package_foldl_add, package_foldl_add]

/-- **The three passes together**: each one overrules those before it. -/
theorem owner?_addAll (r : NameTable) (types : List DeclaredName) (s : String) :
    (r.addAll types).owner? s =
      if ⟨r.package, s⟩ ∈ types then some ⟨r.package, s⟩
      else if ⟨languagePackage, s⟩ ∈ types then some ⟨languagePackage, s⟩
      else (r.owner? s).or (types.find? (·.simple = s)) := by
  have hfilter : ∀ p : String, ∀ n ∈ types.filter (fun n => decide (n.package = p)),
      n.package = p := fun p n hn => of_decide_eq_true (List.mem_filter.mp hn).2
  have hmem : ∀ p : String,
      (⟨p, s⟩ : DeclaredName) ∈ types.filter (fun n => decide (n.package = p))
        ↔ (⟨p, s⟩ : DeclaredName) ∈ types :=
    fun p => ⟨fun h => (List.mem_filter.mp h).1,
      fun h => List.mem_filter.mpr ⟨h, decide_eq_true rfl⟩⟩
  unfold addAll
  rw [owner?_foldl_preferred (hfilter _), owner?_foldl_preferred (hfilter _), owner?_foldl_later]
  simp only [hmem]
  by_cases hown : (⟨r.package, s⟩ : DeclaredName) ∈ types
  · rw [if_pos hown, if_pos hown]
  · rw [if_neg hown, if_neg hown]
    by_cases hlang : (⟨languagePackage, s⟩ : DeclaredName) ∈ types
    · rw [if_pos hlang, if_pos hlang]
    · -- then every type that bears the name is foreign, and the first pass has seen it
      rw [if_neg hlang, if_neg hlang, ← List.head?_filter, ← List.head?_filter,
        List.filter_filter]
      congr 2
      refine List.filter_congr (fun n hn => ?_)
      by_cases hs : n.simple = s
      · have hne : ∀ p : String, (⟨p, s⟩ : DeclaredName) ∉ types → n.package ≠ p := by
          intro p hp he
          refine hp ?_
          rw [← he, ← hs]
          exact hn
        simp [hs, hne _ hown, hne _ hlang]
      · simp [hs]

/-! ## The table of a file -/

/-- The table of a file of a package that mentions the types. -/
def ofTypes (package : String) (types : List DeclaredName) : NameTable :=
  (empty package).addAll types

variable {package : String} {types : List DeclaredName}

theorem package_ofTypes : (ofTypes package types).package = package := package_addAll _ _

theorem owner?_ofTypes (s : String) :
    (ofTypes package types).owner? s =
      if ⟨package, s⟩ ∈ types then some ⟨package, s⟩
      else if ⟨languagePackage, s⟩ ∈ types then some ⟨languagePackage, s⟩
      else types.find? (·.simple = s) :=
  owner?_addAll (empty package) types s

/-- **Every simple name that a type of the file bears has an owner**, and no other has. -/
theorem owner?_ofTypes_eq_none_iff {s : String} :
    (ofTypes package types).owner? s = none ↔ ∀ n ∈ types, n.simple ≠ s := by
  rw [owner?_ofTypes]
  split
  · rename_i h
    exact iff_of_false (by simp) (fun hall => hall _ h rfl)
  · split
    · rename_i h
      exact iff_of_false (by simp) (fun hall => hall _ h rfl)
    · rw [List.find?_eq_none]
      simp only [decide_eq_true_eq]

/-- **The owner of a simple name is the type that the rule names.** -/
theorem owner?_ofTypes_eq_some_iff (h : DeclaredName.Increasing types) {s : String}
    {n : DeclaredName} :
    (ofTypes package types).owner? s = some n ↔
      n.simple = s ∧ DeclaredName.OwnsName package types n := by
  rw [owner?_ofTypes]
  refine ⟨?_, ?_⟩
  · intro ho
    split at ho
    · rename_i hown
      obtain rfl := Option.some.inj ho
      exact ⟨rfl, hown, Or.inl rfl⟩
    · rename_i hown
      split at ho
      · rename_i hlang
        obtain rfl := Option.some.inj ho
        exact ⟨rfl, hlang, Or.inr ⟨hown, Or.inl rfl⟩⟩
      · rename_i hlang
        have hs : n.simple = s := by simpa using List.find?_some ho
        subst hs
        refine ⟨rfl, List.mem_of_find?_eq_some ho, Or.inr ⟨hown, Or.inr ⟨hlang, ?_⟩⟩⟩
        intro m hm hms
        rw [← DeclaredName.compare_of_simple_eq hms.symm]
        exact h.isLE_of_find?_eq_some ho hm (decide_eq_true hms)
  · rintro ⟨rfl, hn, hrule⟩
    rcases hrule with hp | ⟨hown, hp | ⟨hlang, hleast⟩⟩
    · subst hp
      exact if_pos hn
    · rw [if_neg hown, ← hp]
      exact if_pos hn
    · rw [if_neg hown, if_neg hlang]
      cases hfind : types.find? (fun m => decide (m.simple = n.simple)) with
      | none =>
          have hno := List.find?_eq_none.mp hfind n hn
          exact absurd (decide_eq_true rfl) hno
      | some m =>
          -- the first in the list and the one by the rule are each not after the other
          have hms : m.simple = n.simple := by simpa using List.find?_some hfind
          have hle := hleast m (List.mem_of_find?_eq_some hfind) hms
          have hge := h.isLE_of_find?_eq_some hfind hn (decide_eq_true rfl)
          rw [← DeclaredName.compare_of_simple_eq hms.symm] at hle
          exact congrArg some (DeclaredName.eq_of_compare (Std.OrientedCmp.isLE_antisymm hge hle))

/-! ## Spelling -/

theorem isShort_iff {r : NameTable} {n : DeclaredName} :
    r.isShort n = true ↔
      r.owner? n.simple = some n ∨ r.owner? n.simple = none ∧ r.seesPackage n.package = true := by
  unfold isShort
  cases r.owner? n.simple with
  | none => simp
  | some o => simp

/-- A type of the file is written by its simple name exactly if it owns it. -/
theorem isShort_ofTypes_iff (h : DeclaredName.Increasing types) {n : DeclaredName}
    (hn : n ∈ types) :
    (ofTypes package types).isShort n = true ↔ DeclaredName.OwnsName package types n := by
  rw [isShort_iff, owner?_ofTypes_eq_some_iff h, owner?_ofTypes_eq_none_iff]
  refine ⟨?_, ?_⟩
  · rintro (⟨-, ho⟩ | ⟨hnone, -⟩)
    · exact ho
    · exact absurd rfl (hnone n hn)
  · intro ho
    exact Or.inl ⟨rfl, ho⟩

/-! ## Owners and imports -/

theorem mem_owners_iff {r : NameTable} {n : DeclaredName} :
    n ∈ r.owners ↔ r.owner? n.simple = some n := by
  unfold owners
  rw [DeclaredName.mem_sortedSet, List.mem_filter, decide_eq_true_eq]
  exact ⟨And.right, fun ho => ⟨mem_names_of_owner? ho, ho⟩⟩

theorem increasing_owners (r : NameTable) : DeclaredName.Increasing r.owners :=
  DeclaredName.increasing_sortedSet _

theorem eq_of_mem_owners {r : NameTable} {n m : DeclaredName} (hn : n ∈ r.owners)
    (hm : m ∈ r.owners) (hs : n.simple = m.simple) : n = m := by
  have hno := mem_owners_iff.mp hn
  rw [hs, mem_owners_iff.mp hm] at hno
  exact (Option.some.inj hno).symm

theorem mem_imports_iff {r : NameTable} {n : DeclaredName} :
    n ∈ r.imports ↔ r.owner? n.simple = some n ∧ r.seesPackage n.package = false := by
  rw [imports, List.mem_filter, mem_owners_iff, Bool.not_eq_true']

theorem increasing_imports (r : NameTable) : DeclaredName.Increasing r.imports :=
  r.increasing_owners.filter _

/-- **No simple name is imported twice**, since it has one owner. -/
theorem nodup_simple_imports (r : NameTable) : (r.imports.map (·.simple)).Nodup := by
  refine List.Nodup.map_on ?_ (r.increasing_imports).nodup
  intro n hn m hm hs
  exact eq_of_mem_owners (List.mem_of_mem_filter hn) (List.mem_of_mem_filter hm) hs

end NameTable

end TraitWeaver
