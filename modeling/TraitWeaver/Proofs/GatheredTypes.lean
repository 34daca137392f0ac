import TraitWeaver.Proofs.Importable
import TraitWeaver.Proofs.SpelledTypes
import TraitWeaver.Source.TypeSet

/-!
# The types that a type mentions

What a file has to know can be gathered at two stages: from a spelling, or from the
reference that it resolves to. The set of either walk is read off the names that occur
(`Gathers`): they increase, they have no arguments, and neither the root nor a
primitive is among them. So the two sets compare as the names do.

A reference has lost what its spelling has twice. Arrays and intersections go, which
are no types to know, and the root goes where it is an upper bound, with its
arguments. So the reference may mention less, but only if the root has arguments
somewhere (`RootIsBare`).
-/

namespace TraitWeaver

/-! ## What is in a set -/

namespace TypeSet

/-- The set holds the names that may have to be imported, and nothing else. -/
structure Gathers (s : TypeSet) (names : List DeclaredName) : Prop where
  increasing : DeclaredName.Increasing s.names
  plain : ∀ t ∈ s.types, t.args = []
  mem_iff : ∀ n, n ∈ s.names ↔ n ∈ names ∧ n.isImportable = true

/-- No entry is the root or a primitive, and none has arguments. -/
def IsPlain (s : TypeSet) : Prop :=
  ∀ u ∈ s.types, u.name ≠ .root ∧ ¬u.name.isPrimitive = true ∧ u.args = []

theorem map_name_place (t : DeclaredType) (types : List DeclaredType) :
    (place t types).map (·.name) = DeclaredName.insertSorted t.name (types.map (·.name)) := by
  induction types with
  | nil => rfl
  | cons u rest ih =>
      rw [place, List.map_cons, DeclaredName.insertSorted]
      cases t.name.compare u.name with
      | lt => rfl
      | eq => rfl
      | gt => exact congrArg (u.name :: ·) ih

theorem mem_place {t u : DeclaredType} {types : List DeclaredType} (h : u ∈ place t types) :
    u = t ∨ u ∈ types := by
  induction types with
  | nil => exact Or.inl (List.mem_singleton.mp h)
  | cons first rest ih =>
      rw [place] at h
      split at h
      · exact List.mem_cons.mp h
      · exact Or.inr h
      · rcases List.mem_cons.mp h with rfl | h
        · exact Or.inr List.mem_cons_self
        · exact (ih h).imp_right (List.mem_cons_of_mem _)

theorem contains_iff {s : TypeSet} {t : DeclaredType} : s.contains t = true ↔ t.name ∈ s.names := by
  unfold contains names DeclaredType.sameType
  simp [List.any_eq_true, List.mem_map]

theorem gathers_empty : Gathers empty [] where
  increasing := List.Pairwise.nil
  plain := fun _ ht => absurd ht List.not_mem_nil
  mem_iff := fun _ => iff_of_false List.not_mem_nil fun h => List.not_mem_nil h.1

/-- A name that no file has to know, or that is there already, changes nothing. -/
theorem Gathers.skip {s : TypeSet} {names : List DeclaredName} (h : Gathers s names)
    {n : DeclaredName} (hn : n.isImportable = true → n ∈ s.names) :
    Gathers s (names ++ [n]) := by
  refine ⟨h.increasing, h.plain, fun m => ?_⟩
  rw [h.mem_iff, List.mem_append, List.mem_singleton]
  refine ⟨fun hm => ⟨Or.inl hm.1, hm.2⟩, ?_⟩
  rintro ⟨hm | rfl, hi⟩
  · exact ⟨hm, hi⟩
  · exact (h.mem_iff _).mp (hn hi)

theorem Gathers.put {s : TypeSet} {names : List DeclaredName} (h : Gathers s names)
    {n : DeclaredName} (hi : n.isImportable = true) :
    Gathers ⟨place (.plain n) s.types⟩ (names ++ [n]) := by
  have hnames : (TypeSet.mk (place (.plain n) s.types)).names
      = DeclaredName.insertSorted n s.names :=
    map_name_place _ _
  refine ⟨?_, fun u hu => ?_, fun m => ?_⟩
  · rw [hnames]
    exact h.increasing.insertSorted n
  · rcases mem_place hu with rfl | hu
    · rfl
    · exact h.plain u hu
  · rw [hnames, DeclaredName.mem_insertSorted, h.mem_iff, List.mem_append, List.mem_singleton,
      or_and_right, or_comm]
    refine or_congr_right ⟨?_, And.left⟩
    rintro rfl
    exact ⟨rfl, hi⟩

/-- **One more type is one more name.** -/
theorem Gathers.insert {s : TypeSet} {names : List DeclaredName} (h : Gathers s names)
    (t : DeclaredType) : Gathers (s.insert t) (names ++ [t.name]) := by
  unfold TypeSet.insert
  cases hi : t.name.isImportable with
  | false => exact h.skip fun hi' => absurd (hi.symm.trans hi') Bool.false_ne_true
  | true =>
      cases hc : s.contains t with
      | true => exact h.skip fun _ => contains_iff.mp hc
      | false => exact h.put hi

/-- Takes in types of these names, one after the other. -/
def insertNames (s : TypeSet) (names : List DeclaredName) : TypeSet :=
  names.foldl (fun s n => s.insert (.plain n)) s

theorem insertNames_append (s : TypeSet) (names names' : List DeclaredName) :
    s.insertNames (names ++ names') = (s.insertNames names).insertNames names' :=
  List.foldl_append

theorem Gathers.insertNames {s : TypeSet} {names : List DeclaredName} (h : Gathers s names)
    (more : List DeclaredName) : Gathers (s.insertNames more) (names ++ more) := by
  induction more generalizing s names with
  | nil => rwa [List.append_nil]
  | cons n rest ih =>
      have hrest := ih (h.insert (.plain n))
      rwa [List.append_assoc] at hrest

theorem gathers_insertNames (names : List DeclaredName) : Gathers (empty.insertNames names) names :=
  gathers_empty.insertNames names

section

variable {s s' : TypeSet} {names names' : List DeclaredName}

theorem Gathers.types_eq (h : Gathers s names) : s.types = s.names.map .plain := by
  unfold TypeSet.names
  rw [List.map_map]
  refine (List.map_id s.types).symm.trans (List.map_congr_left fun t ht => ?_)
  have hargs := h.plain t ht
  obtain ⟨name, args⟩ := t
  obtain rfl : args = [] := hargs
  rfl

/-- **What is gathered is the sorted set of the names.** -/
theorem Gathers.names_eq (h : Gathers s names) :
    s.names = DeclaredName.sortedSet (names.filter (·.isImportable)) := by
  refine h.increasing.ext (DeclaredName.increasing_sortedSet _) fun n => ?_
  rw [h.mem_iff, DeclaredName.mem_sortedSet, List.mem_filter]

theorem Gathers.mem_types_iff (h : Gathers s names) {t : DeclaredType} :
    t ∈ s.types ↔ t.name ∈ s.names ∧ t.args = [] := by
  rw [h.types_eq, List.mem_map]
  refine ⟨?_, fun ht => ⟨t.name, ht.1, ?_⟩⟩
  · rintro ⟨n, hn, rfl⟩
    exact ⟨hn, rfl⟩
  · rw [DeclaredType.plain, ← ht.2]

/-- **No entry is the root or a primitive, and none has arguments.** -/
theorem Gathers.isPlain (h : Gathers s names) : s.IsPlain := by
  intro u hu
  have hi := ((h.mem_iff u.name).mp (List.mem_map.mpr ⟨u, hu, rfl⟩)).2
  obtain ⟨hroot, hprimitive⟩ := DeclaredName.isImportable_iff.mp hi
  exact ⟨hroot, hprimitive, h.plain u hu⟩

theorem Gathers.types_subset (h : Gathers s names) (h' : Gathers s' names')
    (hsub : ∀ n, n.isImportable = true → n ∈ names → n ∈ names') :
    ∀ u ∈ s.types, u ∈ s'.types := by
  intro u hu
  obtain ⟨hn, hargs⟩ := h.mem_types_iff.mp hu
  obtain ⟨hn, hi⟩ := (h.mem_iff u.name).mp hn
  exact h'.mem_types_iff.mpr ⟨(h'.mem_iff u.name).mpr ⟨hsub u.name hi hn, hi⟩, hargs⟩

/-- Sets that hold the same names are the same. -/
theorem Gathers.eq (h : Gathers s names) (h' : Gathers s' names')
    (hmem : ∀ n, n.isImportable = true → (n ∈ names ↔ n ∈ names')) : s = s' := by
  have hnames : s.names = s'.names := by
    refine h.increasing.ext h'.increasing fun n => ?_
    rw [h.mem_iff, h'.mem_iff]
    exact and_congr_left (hmem n)
  have htypes : s.types = s'.types := by rw [h.types_eq, h'.types_eq, hnames]
  cases s
  exact congrArg TypeSet.mk htypes

end

end TypeSet

/-! ## The two walks -/

/-- **The walk over a reference takes in the names that occur.** -/
theorem TypeRef.gather_eq (t : TypeRef) (s : TypeSet) :
    t.gather s = s.insertNames t.declaredNames := by
  unfold gather declaredNames TypeSet.insertNames
  rw [List.foldl_filterMap]
  congr
  funext s u
  unfold declaredName?
  cases u.declared? with
  | none => rfl
  | some d => rfl

theorem TypeRef.gathers (t : TypeRef) : (t.gather .empty).Gathers t.declaredNames :=
  t.gather_eq .empty ▸ TypeSet.gathers_insertNames _

/-- The walk fills the set that is read off the mentions. -/
theorem TypeRef.names_gather (t : TypeRef) :
    (t.gather .empty).names = DeclaredName.sortedSet t.mentions :=
  t.gathers.names_eq

namespace SourceType

theorem gatherAll_eq {ts : List SourceType}
    (h : ∀ t ∈ ts, ∀ s : TypeSet, t.gather s = s.insertNames t.declaredNames) (s : TypeSet) :
    gatherAll ts s = s.insertNames (declaredNamesOfAll ts) := by
  induction ts generalizing s with
  | nil => rfl
  | cons t ts ih =>
      obtain ⟨ht, hts⟩ := List.forall_mem_cons.mp h
      rw [gatherAll, declaredNamesOfAll, TypeSet.insertNames_append, ← ht, ih hts]

theorem gatherBound_eq {bound : Option SourceType}
    (h : ∀ t, bound = some t → ∀ s : TypeSet, t.gather s = s.insertNames t.declaredNames)
    (s : TypeSet) : gatherBound bound s = s.insertNames (declaredNamesOfBound bound) := by
  cases bound with
  | none => rfl
  | some t => exact h t rfl s

/-- **The walk over a spelling takes in the names that occur.** -/
theorem gather_eq (t : SourceType) (s : TypeSet) : t.gather s = s.insertNames t.declaredNames := by
  induction t generalizing s with
  | primitive name => rfl
  | void => rfl
  | declared name args ih =>
      rw [gather, declaredNames, TypeSet.insertNames_append, gatherAll_eq ih]
      cases DeclaredName.ofQualified name with
      | ok n => rfl
      | error e => rfl
  | array component ih => exact ih s
  | typeVariable name upper lower ihu ihl =>
      rw [gather, declaredNames, TypeSet.insertNames_append, gatherBound_eq ihl, gatherBound_eq ihu]
  | wildcard upper lower ihu ihl =>
      rw [gather, declaredNames, TypeSet.insertNames_append, gatherBound_eq ihl, gatherBound_eq ihu]
  | intersection bounds ih => exact gatherAll_eq ih s

theorem gathers (t : SourceType) : (t.gather .empty).Gathers t.declaredNames :=
  t.gather_eq .empty ▸ TypeSet.gathers_insertNames _

theorem names_gather (t : SourceType) :
    (t.gather .empty).names = DeclaredName.sortedSet t.mentions :=
  t.gathers.names_eq

end SourceType

/-! ## From a spelling to its reference -/

namespace TypeRef

variable {n : DeclaredName} {dims : Dims}

theorem mem_declaredNames_declared {name : DeclaredName} {args : List TypeRef} :
    n ∈ declaredNames (.declared name args dims) ↔ n = name ∨ ∃ a ∈ args, n ∈ a.declaredNames := by
  simp only [declaredNames, List.mem_filterMap, mem_nodes_declared, or_and_right, exists_or,
    exists_eq_left]
  refine or_congr ?_ ⟨?_, ?_⟩
  · exact Option.some_inj.trans eq_comm
  · rintro ⟨u, ⟨a, ha, hu⟩, hn⟩
    exact ⟨a, ha, u, hu, hn⟩
  · rintro ⟨a, ha, u, hu, hn⟩
    exact ⟨u, ⟨a, ha, hu⟩, hn⟩

theorem mem_declaredNames_param {var : TypeVar} {upper : List TypeRef} {lower : Option TypeRef} :
    n ∈ declaredNames (.param var upper lower dims) ↔
      (∃ u ∈ upper, n ∈ u.declaredNames) ∨ ∃ l, lower = some l ∧ n ∈ l.declaredNames := by
  simp only [declaredNames, List.mem_filterMap, mem_nodes_param]
  refine ⟨?_, ?_⟩
  · rintro ⟨u, rfl | ⟨b, hb, hu⟩ | ⟨l, hl, hu⟩, hn⟩
    · cases hn
    · exact Or.inl ⟨b, hb, u, hu, hn⟩
    · exact Or.inr ⟨l, hl, u, hu, hn⟩
  · rintro (⟨b, hb, u, hu, hn⟩ | ⟨l, hl, u, hu, hn⟩)
    · exact ⟨u, Or.inr (Or.inl ⟨b, hb, hu⟩), hn⟩
    · exact ⟨u, Or.inr (Or.inr ⟨l, hl, hu⟩), hn⟩

end TypeRef

namespace SourceType

/-- The type is not the root with arguments. -/
def BareRoot (t : SourceType) : Prop :=
  ∀ args, t = .declared DeclaredName.root.qualified args → args = []

/-- The root has no arguments, wherever it occurs in the spelling. -/
def RootIsBare (t : SourceType) : Prop := t.Throughout (fun _ => BareRoot) .whole

section

variable {n : DeclaredName} {name : String} {args : List SourceType} {t : SourceType}
  {upper lower : Option SourceType}

/-! ### What a spelling mentions -/

theorem mem_declaredNamesOfAll {ts : List SourceType} :
    n ∈ declaredNamesOfAll ts ↔ ∃ t ∈ ts, n ∈ t.declaredNames := by
  induction ts with
  | nil => simp [declaredNamesOfAll]
  | cons t ts ih => simp [declaredNamesOfAll, ih]

theorem mem_declaredNames_declared :
    n ∈ declaredNames (.declared name args) ↔
      DeclaredName.ofQualified name = .ok n ∨ ∃ a ∈ args, n ∈ a.declaredNames := by
  rw [declaredNames, List.mem_append, mem_declaredNamesOfAll, Option.mem_toList]
  exact or_congr_left toOption_eq_some_iff

/-- An upper bound mentions what the types that it consists of mention. -/
theorem mem_declaredNamesOfBound_upper :
    n ∈ declaredNamesOfBound upper ↔ ∃ u ∈ components upper, n ∈ u.declaredNames := by
  cases upper with
  | none => simp [declaredNamesOfBound, components]
  | some t =>
      cases t with
      | intersection bounds => exact mem_declaredNamesOfAll
      | _ => simp [declaredNamesOfBound, components]

theorem mem_declaredNamesOfBound_lower :
    n ∈ declaredNamesOfBound lower ↔ ∃ l, lower = some l ∧ n ∈ l.declaredNames := by
  cases lower with
  | none => simp [declaredNamesOfBound]
  | some t => simp [declaredNamesOfBound]

theorem declaredNames_arrays (k : Nat) (t : SourceType) :
    (arrays k t).declaredNames = t.declaredNames := by
  induction k with
  | zero => rfl
  | succ k ih => exact ih

/-- A variable mentions what a wildcard with its bounds does. -/
theorem mem_declaredNames_bounds :
    n ∈ declaredNamesOfBound upper ++ declaredNamesOfBound lower ↔
      (∃ u ∈ components upper, n ∈ u.declaredNames) ∨
        ∃ l, lower = some l ∧ n ∈ l.declaredNames := by
  rw [List.mem_append, mem_declaredNamesOfBound_upper, mem_declaredNamesOfBound_lower]

/-! ### Where the root is bare -/

/-- The root is to be bare at every place alike. -/
theorem throughout_bareRoot_iff (place : Place) :
    t.Throughout (fun _ => BareRoot) place ↔ t.RootIsBare :=
  throughout_congr Iff.rfl

theorem rootIsBare_iff :
    t.RootIsBare ↔ t.BareRoot ∧ ∀ place u, Holds t place u → u.RootIsBare :=
  throughout_iff.trans
    (and_congr_right fun _ => forall₃_congr fun place _ _ => throughout_bareRoot_iff place)

theorem rootIsBare_arrays_iff (k : Nat) : (arrays k t).RootIsBare ↔ t.RootIsBare := by
  induction k with
  | zero => exact Iff.rfl
  | succ k ih =>
      rw [← ih, arrays, rootIsBare_iff]
      exact (and_iff_right nofun).trans forall_holds_array_iff

theorem RootIsBare.of_holds (h : t.RootIsBare) {place : Place} {u : SourceType}
    (hu : Holds t place u) : u.RootIsBare :=
  (rootIsBare_iff.mp h).2 place u hu

theorem RootIsBare.of_mem_components (h : t.RootIsBare)
    (hupper : ∀ u, upper = some u → Holds t .upper u) {u : SourceType}
    (hu : u ∈ components upper) : u.RootIsBare := by
  have hat : ∀ u, upper = some u → u.Throughout (fun _ => BareRoot) .upper :=
    fun u hu => (throughout_bareRoot_iff .upper).mpr (h.of_holds (hupper u hu))
  rcases throughout_components hat u hu with hu | hu
  · exact (throughout_bareRoot_iff .upper).mp hu
  · exact (throughout_bareRoot_iff .part).mp hu

/-- **The bare root mentions nothing but itself.** -/
theorem RootIsBare.eq_root_of_mem_declaredNames (h : t.RootIsBare) (hroot : t.isRoot = true)
    (hn : n ∈ t.declaredNames) : n = .root := by
  cases t with
  | declared name args =>
      obtain rfl : name = DeclaredName.root.qualified := of_decide_eq_true hroot
      obtain rfl := (rootIsBare_iff.mp h).1 args rfl
      rcases mem_declaredNames_declared.mp hn with hn | ⟨a, ha, -⟩
      · exact (ofQualified_eq_root_iff hn).mpr rfl
      · exact absurd ha List.not_mem_nil
  | _ => cases hroot

end

/-! ### Both walks -/

namespace Denotes

variable {t : SourceType} {r : TypeRef} {n : DeclaredName}

/-- **A reference mentions nothing that its spelling does not.** -/
theorem mem_declaredNames (h : Denotes t r) (hi : n.isImportable = true)
    (hn : n ∈ r.declaredNames) : n ∈ t.declaredNames := by
  induction r generalizing t with
  | declared name args dims ih =>
      rcases TypeRef.mem_declaredNames_declared.mp hn with rfl | ⟨a, ha, hna⟩
      · cases h with
        | primitive k hname => exact absurd hname (DeclaredName.isImportable_iff.mp hi).2
        | void k => exact absurd hi (by decide)
        | declared k hname hargs =>
            rw [declaredNames_arrays]
            exact mem_declaredNames_declared.mpr (Or.inl hname)
      · cases h with
        | primitive | void => exact absurd ha List.not_mem_nil
        | declared k hname hargs =>
            obtain ⟨s, hs, hden⟩ := exists_rel_of_mem hargs ha
            rw [declaredNames_arrays]
            exact mem_declaredNames_declared.mpr (Or.inr ⟨s, hs, ih a ha hden hna⟩)
  | param var upper lower dims ihu ihl =>
      cases h with
      | typeVariable k name hupper hlower | wildcard k hupper hlower =>
          rw [declaredNames_arrays]
          refine mem_declaredNames_bounds.mpr ?_
          rcases TypeRef.mem_declaredNames_param.mp hn with ⟨b, hb, hnb⟩ | ⟨b, rfl, hnb⟩
          · obtain ⟨s, hs, hden⟩ := exists_rel_of_mem hupper hb
            exact Or.inl ⟨s, List.mem_of_mem_filter hs, ihu b hb hden hnb⟩
          · cases hlower with
            | some hden => exact Or.inr ⟨_, rfl, ihl b rfl hden hnb⟩

/-- **What a spelling mentions is lost only with the arguments of the root.** -/
theorem mem_declaredNames_of_rootIsBare (h : Denotes t r) (hbare : t.RootIsBare)
    (hi : n.isImportable = true) (hn : n ∈ t.declaredNames) : n ∈ r.declaredNames := by
  induction r generalizing t with
  | declared name args dims ih =>
      cases h with
      | primitive k | void k =>
          rw [declaredNames_arrays] at hn
          exact absurd hn List.not_mem_nil
      | declared k hname hargs =>
          rw [declaredNames_arrays] at hn
          rw [rootIsBare_arrays_iff] at hbare
          refine TypeRef.mem_declaredNames_declared.mpr ?_
          rcases mem_declaredNames_declared.mp hn with hn | ⟨s, hs, hns⟩
          · exact Or.inl (Except.ok.inj (hn.symm.trans hname))
          · obtain ⟨a, ha, hden⟩ := exists_rel_of_mem hargs.flip hs
            exact Or.inr ⟨a, ha, ih a ha hden (hbare.of_holds (.argument hs)) hns⟩
  | param var upper lower dims ihu ihl =>
      cases h with
      | typeVariable k name hupper hlower | wildcard k hupper hlower =>
          rw [declaredNames_arrays] at hn
          rw [rootIsBare_arrays_iff] at hbare
          refine TypeRef.mem_declaredNames_param.mpr ?_
          rcases mem_declaredNames_bounds.mp hn with ⟨s, hs, hns⟩ | ⟨s, rfl, hns⟩
          · have hbare := hbare.of_mem_components (by rintro u rfl; constructor) hs
            -- only the root is left out of a bound, and it is never to be known
            have hroot : (!s.isRoot) = true := by
              by_contra hroot
              obtain rfl := hbare.eq_root_of_mem_declaredNames (by simpa using hroot) hns
              exact absurd hi (by decide)
            obtain ⟨b, hb, hden⟩ := exists_rel_of_mem hupper.flip (List.mem_filter.mpr ⟨hs, hroot⟩)
            exact Or.inl ⟨b, hb, ihu b hb hden hbare hns⟩
          · cases hlower with
            | some hden =>
                exact Or.inr ⟨_, rfl, ihl _ rfl hden (hbare.of_holds (by constructor)) hns⟩

end Denotes

/--
**Both walks gather the same, but for the arguments of the root.** Each gathers what is
mentioned, and never the root, a primitive or arguments. Nothing is gathered from a
reference that is not gathered from its spelling, and the two sets are equal if the
root is bare.
-/
theorem gather_resolved (t : SourceType) :
    (t.gather .empty).IsPlain
      ∧ (t.gather .empty).names = DeclaredName.sortedSet t.mentions
      ∧ ∀ r, t.resolve = .ok r →
          (r.gather .empty).IsPlain
            ∧ (r.gather .empty).names = DeclaredName.sortedSet r.mentions
            ∧ (∀ u ∈ (r.gather .empty).types, u ∈ (t.gather .empty).types)
            ∧ (t.RootIsBare → r.gather .empty = t.gather .empty) := by
  refine ⟨t.gathers.isPlain, t.names_gather, fun r hr => ?_⟩
  have h : Denotes t r := denotes_of_resolvesTo hr
  refine ⟨r.gathers.isPlain, r.names_gather, ?_, fun hbare => ?_⟩
  · exact r.gathers.types_subset t.gathers fun n hi => h.mem_declaredNames hi
  · refine r.gathers.eq t.gathers fun n hi => ⟨?_, ?_⟩
    · exact h.mem_declaredNames hi
    · exact h.mem_declaredNames_of_rootIsBare hbare hi

-- the argument of `T extends Object<Item>` is in the spelling only
example :
    let t := typeVariable "T" (some (.declared "java.lang.Object" [.declared "lib.Item" []])) none
    (t.gather .empty).names = [⟨"lib", "Item"⟩]
      ∧ t.resolve.toOption.map (·.gather .empty) = some .empty := by
  decide +kernel

theorem rootIsBare_boundedElements : boundedElements.RootIsBare := by
  refine rootIsBare_iff.mpr ⟨nofun, forall_holds_array_iff.mpr ?_⟩
  refine rootIsBare_iff.mpr ⟨nofun, forall_holds_typeVariable_iff.mpr ⟨?_, nofun⟩⟩
  rintro _ ⟨⟩
  refine rootIsBare_iff.mpr ⟨nofun, forall_holds_intersection_iff.mpr ?_⟩
  refine List.forall_mem_cons.mpr ⟨?_, List.forall_mem_singleton.mpr ?_⟩
  · refine rootIsBare_iff.mpr ⟨?_, forall_holds_declared_iff.mpr nofun⟩
    rintro _ ⟨⟩
    rfl
  · refine rootIsBare_iff.mpr ⟨?_, forall_holds_declared_iff.mpr (List.forall_mem_singleton.mpr ?_)⟩
    · rintro args he
      exact absurd (declared.inj he).1 (by decide)
    · refine rootIsBare_iff.mpr ⟨nofun, forall_holds_wildcard_iff.mpr ⟨nofun, ?_⟩⟩
      rintro _ ⟨⟩
      exact (rootIsBare_arrays_iff 2).mpr (rootIsBare_iff.mpr ⟨nofun, nofun⟩)

theorem gather_resolved_boundedElements :
    (boundedElements.gather .empty).IsPlain ∧ (boundedReference.gather .empty).IsPlain
      ∧ boundedElements.RootIsBare
      ∧ boundedReference.gather .empty = boundedElements.gather .empty
      ∧ (boundedElements.gather .empty).names = [⟨languagePackage, "Comparable"⟩] := by
  obtain ⟨hplain, -, hall⟩ := gather_resolved boundedElements
  obtain ⟨hplain', -, -, heq⟩ := hall _ resolve_boundedElements
  exact ⟨hplain, hplain', rootIsBare_boundedElements, heq rootIsBare_boundedElements,
    by decide +kernel⟩

end SourceType

end TraitWeaver
