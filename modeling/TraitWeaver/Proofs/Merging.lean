import Mathlib.Data.List.Induction
import TraitWeaver.Composition

/-!
# Merging type parameters by name

The parameters of a generated class come from its superclass and from all traits,
and they are merged by the names that they are written under. A parameter whose
name is there already is dropped: the merged list has every name, but it need not
have every parameter.
-/

namespace TraitWeaver.Host

theorem addParam_of_mem {params : List TypeParam} {p : TypeParam}
    (h : p.sourceName ∈ params.map (·.sourceName)) : addParam params p = params := by
  obtain ⟨q, hq, he⟩ := List.mem_map.mp h
  exact if_pos (List.any_eq_true.mpr ⟨q, hq, decide_eq_true he⟩)

theorem addParam_of_not_mem {params : List TypeParam} {p : TypeParam}
    (h : p.sourceName ∉ params.map (·.sourceName)) : addParam params p = params ++ [p] := by
  refine if_neg (fun hany => h ?_)
  obtain ⟨q, hq, he⟩ := List.any_eq_true.mp hany
  exact List.mem_map.mpr ⟨q, hq, of_decide_eq_true he⟩

/-- **No name is lost and none is made up.** -/
theorem mem_sourceName_foldl_addParam {ps params : List TypeParam} {name : String} :
    name ∈ (ps.foldl addParam params).map (·.sourceName) ↔
      name ∈ params.map (·.sourceName) ∨ name ∈ ps.map (·.sourceName) := by
  induction ps generalizing params with
  | nil => rw [List.foldl_nil, List.map_nil, List.mem_nil_iff, or_false]
  | cons p ps ih =>
      rw [List.foldl_cons, ih, List.map_cons, List.mem_cons]
      by_cases hp : p.sourceName ∈ params.map (·.sourceName)
      · rw [addParam_of_mem hp]
        refine ⟨Or.imp_right Or.inr, ?_⟩
        rintro (h | rfl | h)
        · exact Or.inl h
        · exact Or.inl hp
        · exact Or.inr h
      · rw [addParam_of_not_mem hp, List.map_append, List.mem_append, List.map_singleton,
          List.mem_singleton, or_assoc]

/-- A merged parameter is one of those that were merged. -/
theorem mem_of_mem_foldl_addParam {ps params : List TypeParam} {p : TypeParam}
    (h : p ∈ ps.foldl addParam params) : p ∈ params ∨ p ∈ ps := by
  induction ps generalizing params with
  | nil => exact Or.inl h
  | cons q ps ih =>
      rcases ih h with h | h
      · by_cases hq : q.sourceName ∈ params.map (·.sourceName)
        · rw [addParam_of_mem hq] at h
          exact Or.inl h
        · rw [addParam_of_not_mem hq] at h
          rcases List.mem_append.mp h with h | h
          · exact Or.inl h
          · exact Or.inr (List.mem_cons.mpr (Or.inl (List.mem_singleton.mp h)))
      · exact Or.inr (List.mem_cons_of_mem _ h)

/-! ## What the merged list is -/

/-- The parameters whose name is neither one of those taken nor that of a parameter before them. -/
def newcomers (taken : List String) (ps : List TypeParam) : List TypeParam :=
  (ps.zipIdx.filter fun e =>
    e.1.sourceName ∉ taken ++ (ps.take e.2).map (·.sourceName)).map Prod.fst

theorem newcomers_sublist (taken : List String) (ps : List TypeParam) :
    (newcomers taken ps).Sublist ps := by
  have h := (List.filter_sublist (l := ps.zipIdx) (p := fun e =>
    e.1.sourceName ∉ taken ++ (ps.take e.2).map (·.sourceName))).map Prod.fst
  rwa [List.zipIdx_map_fst] at h

theorem newcomers_snoc (taken : List String) (ps : List TypeParam) (p : TypeParam) :
    newcomers taken (ps ++ [p]) = newcomers taken ps
      ++ if p.sourceName ∈ taken ++ ps.map (·.sourceName) then [] else [p] := by
  -- what comes before a parameter does not change when one is put behind the last
  have htake : ∀ i ≤ ps.length, (ps ++ [p]).take i = ps.take i := fun i hi =>
    List.take_append_of_le_length hi
  have hbefore : ps.zipIdx.filter (fun e =>
        e.1.sourceName ∉ taken ++ ((ps ++ [p]).take e.2).map (·.sourceName)) =
      ps.zipIdx.filter (fun e =>
        e.1.sourceName ∉ taken ++ (ps.take e.2).map (·.sourceName)) := by
    refine List.filter_congr fun e he => ?_
    have hlt := List.snd_lt_of_mem_zipIdx he
    rw [htake e.2 (by omega)]
  have hlast : [(p, 0 + ps.length)].filter (fun e =>
        e.1.sourceName ∉ taken ++ ((ps ++ [p]).take e.2).map (·.sourceName)) =
      if p.sourceName ∈ taken ++ ps.map (·.sourceName) then [] else [(p, 0 + ps.length)] := by
    have hall : (ps ++ [p]).take (0 + ps.length) = ps := by
      rw [Nat.zero_add, List.take_left]
    rw [List.filter_cons, List.filter_nil, hall]
    by_cases hp : p.sourceName ∈ taken ++ ps.map (·.sourceName)
    · rw [if_pos hp, if_neg (fun h => absurd hp (of_decide_eq_true h))]
    · rw [if_neg hp, if_pos (decide_eq_true hp)]
  unfold newcomers
  rw [List.zipIdx_append, List.filter_append, hbefore, List.zipIdx_singleton, hlast,
    List.map_append]
  split
  · rfl
  · rfl

/-- **Merging adds the newcomers, in their order.** -/
theorem foldl_addParam_eq_append_newcomers (ps params : List TypeParam) :
    ps.foldl addParam params = params ++ newcomers (params.map (·.sourceName)) ps := by
  induction ps using List.reverseRecOn with
  | nil => exact (List.append_nil _).symm
  | append_singleton ps p ih =>
      -- a name is there if it was there from the start or came with one of the others
      have hmem : p.sourceName ∈ (ps.foldl addParam params).map (·.sourceName) ↔
          p.sourceName ∈ params.map (·.sourceName) ++ ps.map (·.sourceName) :=
        mem_sourceName_foldl_addParam.trans List.mem_append.symm
      rw [List.foldl_append, List.foldl_cons, List.foldl_nil, newcomers_snoc]
      by_cases hp : p.sourceName ∈ (ps.foldl addParam params).map (·.sourceName)
      · rw [addParam_of_mem hp, if_pos (hmem.mp hp), List.append_nil, ih]
      · rw [addParam_of_not_mem hp, if_neg (mt hmem.mpr hp), ← List.append_assoc, ih]

/-- Where nothing is taken, what is left is each name once, in the order in which they come up. -/
theorem map_sourceName_foldl_addParam_nil (ps : List TypeParam) :
    (ps.foldl addParam []).map (·.sourceName) = (ps.map (·.sourceName)).eraseDups := by
  induction ps using List.reverseRecOn with
  | nil => rfl
  | append_singleton ps p ih =>
      have hmem : p.sourceName ∈ (ps.foldl addParam []).map (·.sourceName) ↔
          p.sourceName ∈ ps.map (·.sourceName) :=
        mem_sourceName_foldl_addParam.trans (or_iff_right List.not_mem_nil)
      rw [List.foldl_append, List.foldl_cons, List.foldl_nil, List.map_append, List.map_singleton,
        List.eraseDups_append]
      by_cases hp : p.sourceName ∈ ps.map (·.sourceName)
      · have hold : [p.sourceName].removeAll (ps.map (·.sourceName)) = [] := by
          rw [List.removeAll, List.filter_cons_of_neg (by simpa using hp), List.filter_nil]
        rw [addParam_of_mem (hmem.mpr hp), ih, hold, List.eraseDups_nil, List.append_nil]
      · have hnew : [p.sourceName].removeAll (ps.map (·.sourceName)) = [p.sourceName] := by
          rw [List.removeAll, List.filter_cons_of_pos (by simpa using hp), List.filter_nil]
        rw [addParam_of_not_mem (mt hmem.mp hp), List.map_append, ih, hnew]
        rfl

/-- **A name means the first parameter of that name.** -/
theorem find?_foldl_addParam (ps params : List TypeParam) (name : String) :
    (ps.foldl addParam params).find? (·.sourceName = name) =
      (params ++ ps).find? (·.sourceName = name) := by
  induction ps generalizing params with
  | nil => rw [List.foldl_nil, List.append_nil]
  | cons p ps ih =>
      rw [List.foldl_cons, ih]
      by_cases hp : p.sourceName ∈ params.map (·.sourceName)
      · obtain ⟨q, hq, he⟩ := List.mem_map.mp hp
        rw [addParam_of_mem hp, List.find?_append, List.find?_append, List.find?_cons]
        by_cases hname : p.sourceName = name
        · -- the parameter that was there first is found in either case
          cases hfind : params.find? (·.sourceName = name) with
          | some r => rfl
          | none =>
              refine absurd (decide_eq_true (he.trans hname)) ?_
              exact List.find?_eq_none.mp hfind q hq
        · rw [decide_eq_false hname]
      · rw [addParam_of_not_mem hp, List.append_assoc]
        rfl

/-- What is added has names of its own. -/
theorem nodup_sourceName_newcomers (taken : List String) (ps : List TypeParam) :
    ((newcomers taken ps).map (·.sourceName)).Nodup
      ∧ ∀ p ∈ newcomers taken ps, p.sourceName ∉ taken := by
  induction ps using List.reverseRecOn with
  | nil => exact ⟨List.nodup_nil, fun _ hp => absurd hp List.not_mem_nil⟩
  | append_singleton ps p ih =>
      rw [newcomers_snoc]
      by_cases hp : p.sourceName ∈ taken ++ ps.map (·.sourceName)
      · rw [if_pos hp, List.append_nil]
        exact ih
      · rw [if_neg hp, List.map_append, List.map_singleton]
        obtain ⟨hnew, hlast⟩ := not_or.mp (mt List.mem_append.mpr hp)
        refine ⟨List.nodup_append.mpr ⟨ih.1, List.pairwise_singleton _ _, ?_⟩,
          List.forall_mem_append.mpr ⟨ih.2, List.forall_mem_singleton.mpr hnew⟩⟩
        -- a newcomer is one of those before, and no name of theirs comes again
        intro name hname _ hsame he
        refine hlast ?_
        rw [← List.mem_singleton.mp hsame, ← he]
        exact (newcomers_sublist taken ps).map _ |>.subset hname

theorem nodup_sourceName_foldl_addParam (ps : List TypeParam) {params : List TypeParam}
    (h : (params.map (·.sourceName)).Nodup) :
    ((ps.foldl addParam params).map (·.sourceName)).Nodup := by
  obtain ⟨hnodup, hnew⟩ := nodup_sourceName_newcomers (params.map (·.sourceName)) ps
  rw [foldl_addParam_eq_append_newcomers, List.map_append]
  refine List.nodup_append.mpr ⟨h, hnodup, fun name hold _ hadded hsame => ?_⟩
  obtain ⟨p, hp, rfl⟩ := List.mem_map.mp hadded
  exact hnew p hp (hsame ▸ hold)

/-- If all names are different, one parameter of a name is the only one. -/
theorem filter_eq_singleton_of_find? {params : List TypeParam} {p : TypeParam} {name : String}
    (hnodup : (params.map (·.sourceName)).Nodup)
    (hfind : params.find? (·.sourceName = name) = some p) :
    params.filter (·.sourceName = name) = [p] := by
  obtain ⟨hp, before, after, rfl, hbefore⟩ := List.find?_eq_some_iff_append.mp hfind
  rw [List.map_append, List.map_cons, List.nodup_append, List.nodup_cons] at hnodup
  have hleft : before.filter (·.sourceName = name) = [] :=
    List.filter_eq_nil_iff.mpr fun q hq => by simpa using hbefore q hq
  have hright : after.filter (·.sourceName = name) = [] := by
    refine List.filter_eq_nil_iff.mpr fun q hq hname => hnodup.2.1.1 ?_
    rw [of_decide_eq_true hp, ← of_decide_eq_true hname]
    exact List.mem_map_of_mem hq
  rw [List.filter_append, hleft, List.filter_cons, if_pos hp, hright, List.nil_append]

/-- **Merging keeps all parameters with new names exactly if no two of them are written alike.** -/
theorem foldl_addParam_eq_iff (ps params : List TypeParam) :
    ps.foldl addParam params =
        params ++ ps.filter (·.sourceName ∉ params.map (·.sourceName))
      ↔ ((ps.filter (·.sourceName ∉ params.map (·.sourceName))).map (·.sourceName)).Nodup := by
  refine ⟨fun h => ?_, fun h => ?_⟩
  · rw [List.append_cancel_left (h.symm.trans (foldl_addParam_eq_append_newcomers ps params))]
    exact (nodup_sourceName_newcomers _ ps).1
  · induction ps generalizing params with
    | nil => exact (List.append_nil _).symm
    | cons p ps ih =>
        rw [List.foldl_cons]
        by_cases hp : p.sourceName ∈ params.map (·.sourceName)
        · rw [List.filter_cons_of_neg (by simpa using hp)] at h ⊢
          rw [addParam_of_mem hp]
          exact ih params h
        · rw [List.filter_cons_of_pos (by simpa using hp)] at h ⊢
          rw [List.map_cons, List.nodup_cons] at h
          -- the name of the new parameter does not come up again
          have hfilter : ps.filter (·.sourceName ∉ (params ++ [p]).map (·.sourceName)) =
              ps.filter (·.sourceName ∉ params.map (·.sourceName)) := by
            refine List.filter_congr fun q hq => decide_eq_decide.mpr ?_
            rw [List.map_append, List.mem_append, not_or]
            refine and_iff_left_of_imp fun hnew hsame => h.1 ?_
            exact List.mem_map.mpr ⟨q, List.mem_filter.mpr ⟨hq, decide_eq_true hnew⟩,
              List.mem_singleton.mp hsame⟩
          rw [addParam_of_not_mem hp, ih (params ++ [p]) (hfilter.symm ▸ h.2), hfilter,
            List.append_assoc]
          rfl

end TraitWeaver.Host
