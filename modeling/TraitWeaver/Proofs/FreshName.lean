import Mathlib.Data.List.Nodup
import Mathlib.Data.List.Perm.Subperm
import TraitWeaver.Composition

/-!
# A numbered name is always found

`Text.freshNumbered` looks through one candidate more than there are taken
names. Its answer is only worth something if one of the candidates is free, so
the fallback at the end of the search has to be dead code.

That is the pigeonhole principle: numbers are written differently, so no two
candidates are equal, and there are too many of them for all to be taken. What is
found first is the least number that will do (`exists_leastFree_freshNumbered`). A list
that grows by fresh names then never gets a name twice, which is how the
delegates of a host come by their fields.
-/

namespace TraitWeaver

namespace Text

/-- Two numbers that are written alike are equal, since the digits can be read back. -/
theorem repr_injective {m n : Nat} (h : m.repr = n.repr) : m = n := by
  have hd := congrArg (fun s => Nat.ofDigitChars 10 s.toList 0) h
  rwa [Nat.toList_repr, Nat.toList_repr, Nat.ofDigitChars_ten_toDigits,
    Nat.ofDigitChars_ten_toDigits] at hd

/-- The base cancels, and what is left are the digits. -/
theorem numbered_inj {base : String} {m n : Nat} (h : s!"{base}{m}" = s!"{base}{n}") : m = n :=
  repr_injective ((String.append_right_inj base).mp h)

theorem nodup_numbered (base : String) (count : Nat) :
    ((List.range count).map fun k => s!"{base}{k + 2}").Nodup := by
  refine List.Nodup.map ?_ List.nodup_range
  intro j k he
  have := numbered_inj he
  omega

/-- The number makes a free name, and none from two on does that is less. -/
structure LeastFree (taken : List String) (base : String) (n : Nat) : Prop where
  two_le : 2 ≤ n
  free : s!"{base}{n}" ∉ taken
  taken_of_lt : ∀ k, 2 ≤ k → k < n → s!"{base}{k}" ∈ taken

/-- It does not matter in which order names were taken, or how often. -/
theorem LeastFree.congr {taken taken' : List String} {base : String} {n : Nat}
    (h : LeastFree taken base n) (hmem : ∀ name, name ∈ taken ↔ name ∈ taken') :
    LeastFree taken' base n where
  two_le := h.two_le
  free := fun hn => h.free ((hmem _).mpr hn)
  taken_of_lt := fun k hk hkn => (hmem _).mp (h.taken_of_lt k hk hkn)

/-- **The search finds the least number that makes a free name.** -/
theorem exists_leastFree_freshNumbered {taken : List String} {base : String} (h : base ∈ taken) :
    ∃ n, LeastFree taken base n ∧ freshNumbered taken base = s!"{base}{n}" := by
  unfold freshNumbered
  rw [if_pos h]
  dsimp only
  rw [List.find?_map]
  cases hfind : (List.range (taken.length + 1)).find?
      ((fun name => decide (name ∉ taken)) ∘ fun k => s!"{base}{k + 2}") with
  | some k =>
      obtain ⟨hfree, -, hleast⟩ := List.find?_range_eq_some.mp hfind
      refine ⟨k + 2, ⟨Nat.le_add_left 2 k, of_decide_eq_true hfree, fun j hj hjk => ?_⟩, rfl⟩
      obtain ⟨i, rfl⟩ := Nat.exists_eq_add_of_le' hj
      simpa using hleast i (Nat.lt_of_add_lt_add_right hjk)
  | none =>
      -- otherwise all candidates would be among fewer taken names
      exfalso
      have hall : ((List.range (taken.length + 1)).map fun k => s!"{base}{k + 2}") ⊆ taken := by
        intro name hname
        obtain ⟨k, hk, rfl⟩ := List.mem_map.mp hname
        have := List.find?_eq_none.mp hfind k hk
        simpa using this
      have hle := ((nodup_numbered base (taken.length + 1)).subperm hall).length_le
      rw [List.length_map, List.length_range] at hle
      omega

/-- **The name is free.** -/
theorem freshNumbered_not_mem (taken : List String) (base : String) :
    freshNumbered taken base ∉ taken := by
  by_cases hb : base ∈ taken
  · obtain ⟨n, hn, he⟩ := exists_leastFree_freshNumbered hb
    rw [he]
    exact hn.free
  · unfold freshNumbered
    rw [if_neg hb]
    exact hb

theorem nodup_snoc_freshNumbered {taken : List String} (h : taken.Nodup) (base : String) :
    (taken ++ [freshNumbered taken base]).Nodup := by
  refine List.nodup_append.mpr ⟨h, List.nodup_singleton _, ?_⟩
  intro name hname fresh hfresh he
  rw [he, List.mem_singleton.mp hfresh] at hname
  exact freshNumbered_not_mem taken base hname

end Text

/-! ## The fields of the delegates -/

namespace Trait

/-- The loop over the traits, from any field names on. -/
theorem foldl_delegateFields (c : Config) (traits : List Trait) {names : List String}
    (h : names.Nodup) :
    (traits.foldl (fun names t =>
        names ++ [Text.freshNumbered names (Text.lowerFirst (c.delegateOf t.name.simple))])
      names).Nodup
    ∧ (traits.foldl (fun names t =>
        names ++ [Text.freshNumbered names (Text.lowerFirst (c.delegateOf t.name.simple))])
      names).length = names.length + traits.length := by
  induction traits generalizing names with
  | nil => exact ⟨h, rfl⟩
  | cons t rest ih =>
      rw [List.foldl_cons]
      obtain ⟨hd, hlen⟩ := ih (Text.nodup_snoc_freshNumbered h _)
      refine ⟨hd, hlen.trans ?_⟩
      rw [List.length_append, List.length_singleton, List.length_cons]
      omega

/-- **No two delegates share a field.** -/
theorem nodup_delegateFields (c : Config) (traits : List Trait) :
    (delegateFields c traits).Nodup :=
  (foldl_delegateFields c traits List.nodup_nil).1

theorem length_delegateFields (c : Config) (traits : List Trait) :
    (delegateFields c traits).length = traits.length := by
  have := (foldl_delegateFields c traits List.nodup_nil).2
  rwa [List.length_nil, Nat.zero_add] at this

end Trait

end TraitWeaver
