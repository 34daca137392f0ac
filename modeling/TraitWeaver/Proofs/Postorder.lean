import TraitWeaver.Proofs.Positions
import TraitWeaver.TypeRef.Occurrences

/-!
# The order in which type parameters are come to

A rewriting offers the bounds of a parameter before the parameter, so it takes the
parameters of a reference in postorder. The nodes of a reference are listed the other
way, each before what is nested in it. So it is not plain that the two come to the same
parameters, and one that has the same name and bounds at two places must count twice.

Here an *occurrence* is a parameter with its place, and `occurrences` lists them in the
order of a rewriting. The list is then known by properties that do not refer to any walk
(`TypeRef.Postorder`): it has what stands at the places of the reference and nothing
else, and of two places, the one that must be left first comes first.
-/

namespace TraitWeaver.TypeRef

/-! ## The order of places -/

/-- Of two steps from one reference, the first one is on the left of the second. A lower bound comes
after the upper ones. -/
inductive Step.LeftOf : Step → Step → Prop where
  | arg {i j : Nat} : i < j → LeftOf (.arg i) (.arg j)
  | upper {i j : Nat} : i < j → LeftOf (.upper i) (.upper j)
  | lower (i : Nat) : LeftOf (.upper i) .lower

/-- The first place comes before the second one: it is inside of it, or on its left. -/
inductive Before : List Step → List Step → Prop where
  | inside (step : Step) (path : List Step) : Before (step :: path) []
  | left {step step' : Step} (path path' : List Step) : step.LeftOf step' →
      Before (step :: path) (step' :: path')
  | cons (step : Step) {path path' : List Step} : Before path path' →
      Before (step :: path) (step :: path')

theorem Step.LeftOf.ne {step step' : Step} (h : step.LeftOf step') : step ≠ step' := by
  rintro rfl
  cases h with
  | arg hlt => exact Nat.lt_irrefl _ hlt
  | upper hlt => exact Nat.lt_irrefl _ hlt

theorem Before.ne {path path' : List Step} (h : Before path path') : path ≠ path' := by
  induction h with
  | inside step path => exact List.cons_ne_nil step path
  | left path path' hleft => exact fun he => hleft.ne (List.cons.inj he).1
  | cons step _ ih => exact fun he => ih (List.cons.inj he).2

/-! ## Occurrences -/

/-- A type parameter with its bounds, and the place where it stands. -/
structure Occurrence where
  place : List Step
  param : TypeParam

/-- The occurrence as it is seen from one step further out. -/
def Occurrence.behind (step : Step) (o : Occurrence) : Occurrence := ⟨step :: o.place, o.param⟩

mutual

/-- The occurrences of type parameters, those in the bounds of a parameter before it. -/
def occurrences : TypeRef → List Occurrence
  | .declared _ args _ => occurrencesOfList .arg args
  | .param var upper lower _ =>
    occurrencesOfList .upper upper ++ (occurrencesOfOption lower ++ [⟨[], var, upper, lower⟩])

/-- The occurrences in several references, which the given steps lead to. -/
def occurrencesOfList (step : Nat → Step) : List TypeRef → List Occurrence
  | [] => []
  | t :: ts =>
    (occurrences t).map (.behind (step 0)) ++ occurrencesOfList (fun i => step (i + 1)) ts

def occurrencesOfOption : Option TypeRef → List Occurrence
  | none => []
  | some t => (occurrences t).map (.behind .lower)

end

theorem mem_occurrencesOfList {step : Nat → Step} {ts : List TypeRef} {o : Occurrence} :
    o ∈ occurrencesOfList step ts ↔
      ∃ (i : Nat) (t : TypeRef), ts[i]? = some t ∧
        ∃ o' ∈ t.occurrences, o'.behind (step i) = o := by
  induction ts generalizing step with
  | nil => simp [occurrencesOfList]
  | cons t ts ih =>
      rw [occurrencesOfList, List.mem_append, List.mem_map, ih]
      refine ⟨?_, ?_⟩
      · rintro (h | ⟨i, u, hu, h⟩)
        · exact ⟨0, t, rfl, h⟩
        · exact ⟨i + 1, u, hu, h⟩
      · rintro ⟨i, u, hu, h⟩
        cases i with
        | zero =>
            obtain rfl := Option.some.inj hu
            exact Or.inl h
        | succ i => exact Or.inr ⟨i, u, hu, h⟩

theorem mem_occurrencesOfOption {lower : Option TypeRef} {o : Occurrence} :
    o ∈ occurrencesOfOption lower ↔
      ∃ t, lower = some t ∧ ∃ o' ∈ t.occurrences, o'.behind .lower = o := by
  cases lower with
  | none => simp [occurrencesOfOption]
  | some t => simp [occurrencesOfOption]

/-- The parameter at a place, if there is one. -/
def paramAt? (t : TypeRef) (place : List Step) : Option TypeParam := (t.at? place).bind param?

theorem paramAt?_cons (t : TypeRef) (step : Step) (path : List Step) :
    t.paramAt? (step :: path) = (t.child? step).bind (·.paramAt? path) :=
  Option.bind_assoc _ _ _

theorem nil_mem_occurrences_iff {t : TypeRef} {p : TypeParam} :
    ⟨[], p⟩ ∈ t.occurrences ↔ t.param? = some p := by
  cases t with
  | declared name args dims =>
      rw [occurrences, mem_occurrencesOfList]
      refine iff_of_false ?_ fun h => by cases h
      rintro ⟨_, _, -, _, -, he⟩
      cases he
  | param var upper lower dims =>
      rw [occurrences, List.mem_append, List.mem_append, mem_occurrencesOfList,
        mem_occurrencesOfOption, List.mem_singleton]
      refine ⟨?_, fun h => ?_⟩
      · rintro (⟨_, _, -, _, -, he⟩ | ⟨_, -, _, -, he⟩ | he)
        · cases he
        · cases he
        · cases he
          rfl
      · cases h
        exact Or.inr (Or.inr rfl)

/-- What is further in is found in what a step leads to. -/
theorem cons_mem_occurrences_iff {t : TypeRef} {step : Step} {path : List Step} {p : TypeParam} :
    ⟨step :: path, p⟩ ∈ t.occurrences ↔
      ∃ u, t.child? step = some u ∧ ⟨path, p⟩ ∈ u.occurrences := by
  cases t with
  | declared name args dims =>
      rw [occurrences, mem_occurrencesOfList]
      refine ⟨?_, ?_⟩
      · rintro ⟨i, u, hu, o, ho, he⟩
        cases he
        exact ⟨u, hu, ho⟩
      · rintro ⟨u, hu, ho⟩
        cases step with
        | arg i => exact ⟨i, u, hu, _, ho, rfl⟩
        | upper i => cases hu
        | lower => cases hu
  | param var upper lower dims =>
      rw [occurrences, List.mem_append, List.mem_append, mem_occurrencesOfList,
        mem_occurrencesOfOption, List.mem_singleton]
      refine ⟨?_, ?_⟩
      · rintro (⟨i, u, hu, o, ho, he⟩ | ⟨u, hu, o, ho, he⟩ | he)
        · cases he
          exact ⟨u, hu, ho⟩
        · cases he
          exact ⟨u, hu, ho⟩
        · cases he
      · rintro ⟨u, hu, ho⟩
        cases step with
        | arg i => cases hu
        | upper i => exact Or.inl ⟨i, u, hu, _, ho, rfl⟩
        | lower => exact Or.inr (Or.inl ⟨u, hu, _, ho, rfl⟩)

/-- **The occurrences are what stands at the places of the reference.** -/
theorem mem_occurrences_iff {t : TypeRef} {o : Occurrence} :
    o ∈ t.occurrences ↔ t.paramAt? o.place = some o.param := by
  obtain ⟨place, p⟩ := o
  induction place generalizing t with
  | nil => exact nil_mem_occurrences_iff
  | cons step path ih =>
      rw [cons_mem_occurrences_iff, paramAt?_cons, Option.bind_eq_some_iff]
      exact exists_congr fun u => and_congr_right fun _ => ih

/-! ## Postorder -/

/-- Of any two occurrences, the one that comes first is to come first. -/
def InOrder (os : List Occurrence) : Prop := os.Pairwise fun o o' => Before o.place o'.place

theorem InOrder.behind {os : List Occurrence} (h : InOrder os) (step : Step) :
    InOrder (os.map (Occurrence.behind step)) :=
  List.pairwise_map.mpr (h.imp fun h => .cons step h)

theorem inOrder_occurrencesOfList {step : Nat → Step}
    (hstep : ∀ i j, i < j → (step i).LeftOf (step j)) {ts : List TypeRef}
    (h : ∀ t ∈ ts, InOrder t.occurrences) : InOrder (occurrencesOfList step ts) := by
  induction ts generalizing step with
  | nil => exact .nil
  | cons t ts ih =>
      obtain ⟨ht, hts⟩ := List.forall_mem_cons.mp h
      rw [occurrencesOfList, InOrder, List.pairwise_append]
      refine ⟨ht.behind _,
        ih (fun i j hlt => hstep (i + 1) (j + 1) (Nat.succ_lt_succ hlt)) hts, fun o ho o' ho' => ?_⟩
      obtain ⟨o, -, rfl⟩ := List.mem_map.mp ho
      obtain ⟨i, _, -, o', -, rfl⟩ := mem_occurrencesOfList.mp ho'
      exact .left _ _ (hstep 0 (i + 1) (Nat.succ_pos i))

/-- **Bounds come before their parameter, and everything else from left to right.** -/
theorem inOrder_occurrences (t : TypeRef) : InOrder t.occurrences := by
  induction t with
  | declared name args dims ih =>
      rw [occurrences]
      exact inOrder_occurrencesOfList (fun _ _ => .arg) ih
  | param var upper lower dims ihu ihl =>
      have hlower : InOrder (occurrencesOfOption lower) := by
        cases lower with
        | none => exact .nil
        | some t => exact (ihl t rfl).behind .lower
      rw [occurrences, InOrder, List.pairwise_append, List.pairwise_append]
      refine ⟨inOrder_occurrencesOfList (fun _ _ => .upper) ihu,
        ⟨hlower, List.pairwise_singleton _ _, fun o ho o' ho' => ?_⟩, fun o ho o' ho' => ?_⟩
      · obtain ⟨_, -, o, -, rfl⟩ := mem_occurrencesOfOption.mp ho
        rw [List.mem_singleton.mp ho']
        exact .inside _ _
      · obtain ⟨i, _, -, o, -, rfl⟩ := mem_occurrencesOfList.mp ho
        rcases List.mem_append.mp ho' with ho' | ho'
        · obtain ⟨_, -, o', -, rfl⟩ := mem_occurrencesOfOption.mp ho'
          exact .left _ _ (.lower i)
        · rw [List.mem_singleton.mp ho']
          exact .inside _ _

/-! ## Counting -/

theorem map_param_behind (step : Step) (os : List Occurrence) :
    (os.map (Occurrence.behind step)).map (·.param) = os.map (·.param) := by
  rw [List.map_map]
  rfl

theorem perm_params_occurrencesOfList {step : Nat → Step} {ts : List TypeRef}
    (h : ∀ t ∈ ts, (t.occurrences.map (·.param)).Perm t.params) :
    ((occurrencesOfList step ts).map (·.param)).Perm (ts.flatMap params) := by
  induction ts generalizing step with
  | nil => exact .nil
  | cons t ts ih =>
      obtain ⟨ht, hts⟩ := List.forall_mem_cons.mp h
      rw [occurrencesOfList, List.map_append, map_param_behind, List.flatMap_cons]
      exact ht.append (ih hts)

/-- **There are as many occurrences as there are nodes with a parameter**, and they are of the same
parameters. -/
theorem perm_params_occurrences (t : TypeRef) : (t.occurrences.map (·.param)).Perm t.params := by
  induction t with
  | declared name args dims ih =>
      rw [occurrences, params_declared]
      exact perm_params_occurrencesOfList ih
  | param var upper lower dims ihu ihl =>
      have hlower : ((occurrencesOfOption lower).map (·.param)).Perm
          (lower.toList.flatMap params) := by
        cases lower with
        | none => exact .nil
        | some t =>
            rw [occurrencesOfOption, map_param_behind]
            exact (ihl t rfl).trans (.of_eq (List.append_nil _).symm)
      rw [occurrences, params_param, List.map_append, List.map_append, ← List.append_assoc]
      exact (List.perm_append_singleton _ _).trans
        (((perm_params_occurrencesOfList ihu).append hlower).cons _)

/-- The list has each type parameter of the reference once, in postorder. -/
structure Postorder (t : TypeRef) (os : List Occurrence) : Prop where
  mem_iff : ∀ o, o ∈ os ↔ t.paramAt? o.place = some o.param
  ordered : InOrder os
  nodup : (os.map (·.place)).Nodup
  /-- These are the parameters among the nodes, each as often as it is there. -/
  params : (os.map (·.param)).Perm t.params

theorem postorder_occurrences (t : TypeRef) : t.Postorder t.occurrences where
  mem_iff _ := mem_occurrences_iff
  ordered := inOrder_occurrences t
  nodup := List.pairwise_map.mpr ((inOrder_occurrences t).imp Before.ne)
  params := perm_params_occurrences t

/-- In `Map<T[], ? extends List<U>>`, the wildcard is the last one. -/
example : (occurrences (.declared ⟨"java.util", "Map"⟩
    [.param (.plain "T") [] none ⟨1, false⟩,
      .param (.plain TypeVar.wildcardName) [.declared ⟨"java.util", "List"⟩
        [.param (.plain "U") [] none .scalar] .scalar] none .scalar] .scalar)).map
      (fun o => (o.place, o.param.sourceName)) =
    [([.arg 0], "T"), ([.arg 1, .upper 0, .arg 0], "U"), ([.arg 1], "?")] := rfl

end TraitWeaver.TypeRef
