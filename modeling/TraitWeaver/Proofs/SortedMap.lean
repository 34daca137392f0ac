import TraitWeaver.Proofs.NameOrder
import TraitWeaver.SortedMap

/-!
# Reading a map back

A map is a plain list of entries, and nothing in its type says that the keys
increase. Three facts are owed, and they need different things:

* **a value put in is the value read**, and no other key notices. This holds of
  any list of entries at all: insertion stops at the first key that is not
  smaller, so the new entry stands before any older one of its key;
* **the order of insertion does not matter**, as long as the keys differ. This
  holds of any list of entries, too: of two new entries, the one with the lesser
  key comes to stand in front, whichever was put in first;
* **what is listed is what is read**: an entry is found under its own key. This
  needs each key to occur once, which insertion preserves because it keeps the
  keys increasing. Two maps with increasing keys that are read alike are then one.
-/

namespace TraitWeaver

/-- A key is not found exactly if it is not listed. -/
theorem lookup_eq_none_iff {β : Type} {entries : List (String × β)} {key : String} :
    entries.lookup key = none ↔ key ∉ entries.map Prod.fst := by
  rw [List.lookup_eq_none_iff, List.mem_map]
  refine ⟨fun h => ?_, fun h p hp => ?_⟩
  · rintro ⟨p, hp, rfl⟩
    exact absurd (h p hp) (by simp)
  · exact bne_iff_ne.mpr fun he => h ⟨p, hp, he.symm⟩

theorem mem_of_lookup_eq_some {β : Type} {entries : List (String × β)} {key : String} {value : β}
    (h : entries.lookup key = some value) : (key, value) ∈ entries := by
  obtain ⟨before, after, rfl, -⟩ := List.lookup_eq_some_iff.mp h
  exact List.mem_append_right _ List.mem_cons_self

end TraitWeaver

namespace TraitWeaver.SortedMap

variable {α : Type}

theorem lookup_cons_eq (entry : String × α) (rest : List (String × α)) (key : String) :
    (entry :: rest).lookup key = if key = entry.1 then some entry.2 else rest.lookup key := by
  rw [List.lookup_cons]
  by_cases hk : key = entry.1
  · rw [if_pos hk, hk, beq_self_eq_true]
  · rw [if_neg hk, beq_false_of_ne hk]

theorem lookup_insertEntry (key key' : String) (value : α) (entries : List (String × α)) :
    (insertEntry key value entries).lookup key' =
      if key' = key then some value else entries.lookup key' := by
  induction entries with
  | nil => exact lookup_cons_eq (key, value) [] key'
  | cons entry rest ih =>
      rw [insertEntry]
      split
      · exact lookup_cons_eq (key, value) (entry :: rest) key'
      · -- the entry that goes had the same key
        rename_i hc
        have he : key = entry.1 := Std.LawfulEqOrd.eq_of_compare hc
        rw [lookup_cons_eq, lookup_cons_eq, ← he]
        by_cases hk : key' = key
        · rw [if_pos hk, if_pos hk]
        · rw [if_neg hk, if_neg hk, if_neg hk]
      · -- the entry passed over has another key
        rename_i hc
        have hne : key ≠ entry.1 := by
          intro he
          rw [he, Std.ReflOrd.compare_self] at hc
          exact absurd hc (by simp)
        rw [lookup_cons_eq, lookup_cons_eq, ih]
        by_cases hk : key' = key
        · rw [if_neg (hk ▸ hne), if_pos hk, if_pos hk]
        · rw [if_neg hk, if_neg hk]

/-- **What is put in is read back, and under every other key nothing changes.** -/
theorem get?_insert (m : SortedMap α) (key key' : String) (value : α) :
    (m.insert key value).get? key' = if key' = key then some value else m.get? key' :=
  lookup_insertEntry key key' value m.entries

/-- Under a key that is not there, one more entry is all that changes. -/
theorem insertEntry_perm {key : String} {entries : List (String × α)}
    (h : entries.lookup key = none) (value : α) :
    (insertEntry key value entries).Perm ((key, value) :: entries) := by
  induction entries with
  | nil => exact List.Perm.refl _
  | cons entry rest ih =>
      rw [lookup_cons_eq] at h
      rw [insertEntry]
      split
      · exact List.Perm.refl _
      · rename_i hc
        rw [if_pos (Std.LawfulEqOrd.eq_of_compare hc)] at h
        cases h
      · have hrest : rest.lookup key = none := by
          split at h
          · cases h
          · exact h
        exact ((ih hrest).cons entry).trans (List.Perm.swap _ _ _)

/-! ## The order of insertion -/

theorem insertEntry_of_lt {key k : String} {value v : α} {rest : List (String × α)}
    (h : compare key k = .lt) :
    insertEntry key value ((k, v) :: rest) = (key, value) :: (k, v) :: rest := by
  rw [insertEntry, h]

theorem insertEntry_of_eq {key k : String} {value v : α} {rest : List (String × α)}
    (h : compare key k = .eq) :
    insertEntry key value ((k, v) :: rest) = (key, value) :: rest := by
  rw [insertEntry, h]

theorem insertEntry_of_gt {key k : String} {value v : α} {rest : List (String × α)}
    (h : compare key k = .gt) :
    insertEntry key value ((k, v) :: rest) = (k, v) :: insertEntry key value rest := by
  rw [insertEntry, h]

theorem insertEntry_comm_of_lt {key key' : String} (hlt : compare key key' = .lt)
    (value value' : α) (entries : List (String × α)) :
    insertEntry key value (insertEntry key' value' entries) =
      insertEntry key' value' (insertEntry key value entries) := by
  have hgt : compare key' key = .gt := Std.OrientedCmp.gt_iff_lt.mpr hlt
  induction entries with
  | nil =>
      show insertEntry key value [(key', value')] = insertEntry key' value' [(key, value)]
      rw [insertEntry_of_lt hlt, insertEntry_of_gt hgt]
      rfl
  | cons entry rest ih =>
      obtain ⟨k, v⟩ := entry
      cases hc : compare key k with
      | lt =>
          rw [insertEntry_of_lt hc, insertEntry_of_gt hgt]
          -- the greater key is put in behind the lesser one, wherever that is
          cases hc' : compare key' k with
          | lt => rw [insertEntry_of_lt hc', insertEntry_of_lt hlt]
          | eq => rw [insertEntry_of_eq hc', insertEntry_of_lt hlt]
          | gt => rw [insertEntry_of_gt hc', insertEntry_of_lt hc]
      | eq =>
          have hc' : compare key' k = .gt := Std.LawfulEqOrd.eq_of_compare hc ▸ hgt
          rw [insertEntry_of_gt hc', insertEntry_of_eq hc, insertEntry_of_eq hc,
            insertEntry_of_gt hgt]
      | gt =>
          have hc' : compare key' k = .gt :=
            Std.OrientedCmp.gt_iff_lt.mpr
              (Std.TransCmp.lt_trans (Std.OrientedCmp.gt_iff_lt.mp hc) hlt)
          rw [insertEntry_of_gt hc, insertEntry_of_gt hc', insertEntry_of_gt hc,
            insertEntry_of_gt hc', ih]

/-- **Values under different keys may be put in in either order.** -/
theorem insert_comm {key key' : String} (hne : key ≠ key') (value value' : α) (m : SortedMap α) :
    (m.insert key value).insert key' value' = (m.insert key' value').insert key value := by
  unfold insert
  congr 1
  cases hc : compare key key' with
  | lt => exact (insertEntry_comm_of_lt hc value value' m.entries).symm
  | eq => exact absurd (Std.LawfulEqOrd.eq_of_compare hc) hne
  | gt => exact insertEntry_comm_of_lt (Std.OrientedCmp.gt_iff_lt.mp hc) value' value m.entries

/-! ## Increasing keys -/

/-- The keys increase from entry to entry. -/
def Increasing (entries : List (String × α)) : Prop :=
  entries.Pairwise fun a b => compare a.1 b.1 = .lt

theorem mem_insertEntry {key : String} {value : α} {entries : List (String × α)}
    {e : String × α} (h : e ∈ insertEntry key value entries) : e = (key, value) ∨ e ∈ entries := by
  induction entries with
  | nil => exact Or.inl (List.mem_singleton.mp h)
  | cons entry rest ih =>
      rw [insertEntry] at h
      split at h
      · exact List.mem_cons.mp h
      · rcases List.mem_cons.mp h with h | h
        · exact Or.inl h
        · exact Or.inr (List.mem_cons_of_mem _ h)
      · rcases List.mem_cons.mp h with h | h
        · exact Or.inr (List.mem_cons.mpr (Or.inl h))
        · exact (ih h).imp id (List.mem_cons_of_mem _)

/-- **Insertion keeps the keys increasing.** -/
theorem increasing_insertEntry {entries : List (String × α)} (h : Increasing entries)
    (key : String) (value : α) : Increasing (insertEntry key value entries) := by
  induction entries with
  | nil => exact List.pairwise_singleton _ _
  | cons entry rest ih =>
      obtain ⟨hentry, hrest⟩ := List.pairwise_cons.mp h
      rw [insertEntry]
      split
      · rename_i hc
        refine List.pairwise_cons.mpr ⟨?_, h⟩
        intro e he
        rcases List.mem_cons.mp he with rfl | he
        · exact hc
        · exact Std.TransCmp.lt_trans hc (hentry e he)
      · rename_i hc
        refine List.pairwise_cons.mpr ⟨?_, hrest⟩
        intro e he
        show compare key e.1 = .lt
        rw [Std.LawfulEqOrd.eq_of_compare hc]
        exact hentry e he
      · rename_i hc
        refine List.pairwise_cons.mpr ⟨?_, ih hrest⟩
        intro e he
        rcases mem_insertEntry he with rfl | he
        · exact Std.OrientedCmp.gt_iff_lt.mp hc
        · exact hentry e he

/-- Where keys increase, every entry is the one that is found under its key. -/
theorem lookup_of_mem {entries : List (String × α)} (h : Increasing entries)
    {key : String} {value : α} (hm : (key, value) ∈ entries) :
    entries.lookup key = some value := by
  induction entries with
  | nil => exact absurd hm List.not_mem_nil
  | cons entry rest ih =>
      obtain ⟨hentry, hrest⟩ := List.pairwise_cons.mp h
      rw [lookup_cons_eq]
      -- an entry further back has a greater key than the one in front
      rcases List.mem_cons.mp hm with rfl | hm
      · exact if_pos rfl
      · have hne : key ≠ entry.1 := by
          intro he
          have hlt := hentry _ hm
          rw [he, Std.ReflOrd.compare_self] at hlt
          exact absurd hlt (by simp)
        rw [if_neg hne]
        exact ih hrest hm

/-- **Maps with increasing keys are equal if they are read alike.** -/
theorem ext_of_increasing {m m' : SortedMap α} (h : Increasing m.entries)
    (h' : Increasing m'.entries) (hget : ∀ key, m.get? key = m'.get? key) : m = m' := by
  have hmem : ∀ {l l' : SortedMap α}, Increasing l.entries →
      (∀ key, l.get? key = l'.get? key) → ∀ e ∈ l.entries, e ∈ l'.entries := by
    intro l l' hl heq e he
    exact mem_of_lookup_eq_some ((heq e.1).symm.trans (lookup_of_mem hl he))
  have hentries : m.entries = m'.entries := by
    refine eq_of_increasing (c := compareOn Prod.fst) h h' fun e => ?_
    exact ⟨hmem h hget e, hmem h' (fun key => (hget key).symm) e⟩
  cases m
  cases m'
  exact congrArg mk hentries

end TraitWeaver.SortedMap
