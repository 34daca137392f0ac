import TraitWeaver.Proofs.Traversal
import TraitWeaver.Proofs.Variables

/-!
# The dimensions of every node

A varargs marker is about the last dimension of an array, so what is no array has none.
But the marker and the depth are kept side by side, each operation on types sees to one
of them or to both, and putting a type in the place of a parameter adds up the depths and
keeps either marker.

What is asked of dimensions is asked here of every node (`EveryDims`). Renaming does not
touch dimensions at all, so that it is enough to look at what does: choosing a depth,
marking, and putting one type under the dimensions of another. What is *built* by these
operations, in any order and with rewritings in between, then has dimensions that go
together (`Dims.Fit`).
-/

namespace TraitWeaver

/-! ## One occurrence -/

namespace Dims

/-- There is a varargs marker on an array only. -/
def Fit (d : Dims) : Prop := d.varargs = true → 1 ≤ d.depth

/-- There is no varargs marker. -/
def Unmarked (d : Dims) : Prop := d.varargs = false

theorem unmarked_scalar : scalar.Unmarked := rfl

theorem Unmarked.fit {d : Dims} (h : d.Unmarked) : d.Fit := fun hv => by
  rw [h] at hv
  cases hv

theorem fit_scalar : scalar.Fit := unmarked_scalar.fit

/-- Whatever there was before. -/
theorem fit_withDepth (d : Dims) (depth : Nat) : (d.withDepth depth).Fit := by
  intro hv
  obtain ⟨-, hne⟩ := (Bool.and_eq_true _ _).mp hv
  exact Nat.one_le_iff_ne_zero.mpr (bne_iff_ne.mp hne)

theorem fit_markVarargs (d : Dims) : d.markVarargs.Fit := fun _ => Nat.le_max_right _ 1

theorem Fit.around {outer inner : Dims} (ho : outer.Fit) (hi : inner.Fit) :
    (outer.around inner).Fit := by
  intro hv
  show 1 ≤ inner.depth + outer.depth
  rcases (Bool.or_eq_true _ _).mp hv with h | h
  · exact Nat.le_add_left_of_le (ho h)
  · exact Nat.le_add_right_of_le (hi h)

theorem Unmarked.around {outer inner : Dims} (ho : outer.Unmarked) (hi : inner.Unmarked) :
    (outer.around inner).Unmarked := by
  show (outer.varargs || inner.varargs) = false
  rw [ho, hi]
  rfl

end Dims

/-! ## Every occurrence -/

namespace TypeRef

/-- It holds of the dimensions of all nodes. -/
def EveryDims (P : Dims → Prop) (t : TypeRef) : Prop := ∀ u ∈ t.nodes, P u.dims

/-- It holds of the dimensions of all nodes but the outermost. -/
def InnerDims (P : Dims → Prop) (t : TypeRef) : Prop := ∀ u ∈ t.nodes.tail, P u.dims

variable {P : Dims → Prop} {t : TypeRef}

theorem nodes_eq_cons (t : TypeRef) : t.nodes = t :: t.nodes.tail := by
  cases t with
  | declared => rw [nodes, List.tail_cons]
  | param => rw [nodes, List.tail_cons]

theorem everyDims_iff : t.EveryDims P ↔ P t.dims ∧ t.InnerDims P := by
  unfold EveryDims InnerDims
  rw [nodes_eq_cons, List.forall_mem_cons, List.tail_cons]

theorem dims_withDims (t : TypeRef) (d : Dims) : (t.withDims d).dims = d := by
  cases t with
  | declared => rfl
  | param => rfl

/-- Only the outermost dimensions are replaced. -/
theorem innerDims_withDims {d : Dims} : (t.withDims d).InnerDims P ↔ t.InnerDims P := by
  unfold InnerDims
  cases t with
  | declared => rw [withDims, nodes, nodes, List.tail_cons, List.tail_cons]
  | param => rw [withDims, nodes, nodes, List.tail_cons, List.tail_cons]

theorem EveryDims.withDims (h : t.EveryDims P) {d : Dims} (hd : P d) :
    (t.withDims d).EveryDims P := by
  rw [everyDims_iff, dims_withDims, innerDims_withDims]
  exact ⟨hd, (everyDims_iff.mp h).2⟩

theorem everyDims_declared_iff {name : DeclaredName} {args : List TypeRef} {dims : Dims} :
    EveryDims P (.declared name args dims) ↔ P dims ∧ ∀ a ∈ args, a.EveryDims P := by
  unfold EveryDims
  simp only [mem_nodes_declared, or_imp, forall_and, forall_eq, forall_exists_index, and_imp]
  exact and_congr_right fun _ => ⟨fun h a ha u => h u a ha, fun h u a ha => h a ha u⟩

theorem everyDims_param_iff {var : TypeVar} {upper : List TypeRef} {lower : Option TypeRef}
    {dims : Dims} :
    EveryDims P (.param var upper lower dims) ↔
      P dims ∧ (∀ b ∈ upper, b.EveryDims P) ∧ ∀ b, lower = some b → b.EveryDims P := by
  unfold EveryDims
  simp only [mem_nodes_param, or_imp, forall_and, forall_eq, forall_exists_index, and_imp]
  exact and_congr_right fun _ => and_congr ⟨fun h b hb u => h u b hb, fun h u b hb => h b hb u⟩
    ⟨fun h b hb u => h u b hb, fun h u b hb => h b hb u⟩

/-- It holds of the outermost dimensions, and of all that is one step further in. -/
theorem everyDims_iff_child? :
    t.EveryDims P ↔ P t.dims ∧ ∀ step u, t.child? step = some u → u.EveryDims P := by
  cases t with
  | declared name args dims =>
      rw [everyDims_declared_iff]
      refine and_congr_right fun _ => ⟨fun h step u hu => ?_, fun h a ha => ?_⟩
      · cases step with
        | arg i => exact h u (List.mem_of_getElem? hu)
        | upper i => cases hu
        | lower => cases hu
      · obtain ⟨i, hi⟩ := List.mem_iff_getElem?.mp ha
        exact h (.arg i) a hi
  | param var upper lower dims =>
      rw [everyDims_param_iff]
      refine and_congr_right fun _ => ⟨fun h step u hu => ?_, fun h => ⟨fun b hb => ?_, fun b hb => ?_⟩⟩
      · cases step with
        | arg i => cases hu
        | upper i => exact h.1 u (List.mem_of_getElem? hu)
        | lower => exact h.2 u hu
      · obtain ⟨i, hi⟩ := List.mem_iff_getElem?.mp hb
        exact h (.upper i) b hi
      · exact h .lower b hb

/-! ## Renaming and rewriting -/

/-- **Renaming changes no dimensions.** -/
theorem map_dims_nodes_mapVars (f : TypeVar → TypeVar) (t : TypeRef) :
    (t.mapVars f).nodes.map dims = t.nodes.map dims := by
  have hall : ∀ ts : List TypeRef, (∀ t ∈ ts, (t.mapVars f).nodes.map dims = t.nodes.map dims) →
      (nodesOfList (ts.map (mapVars f))).map dims = (nodesOfList ts).map dims := by
    intro ts h
    rw [nodesOfList_eq_flatMap, nodesOfList_eq_flatMap, List.flatMap_map, List.map_flatMap,
      List.map_flatMap]
    exact List.flatMap_congr h
  induction t with
  | declared name args d ih =>
      rw [mapVars_declared, nodes, nodes, List.map_cons, List.map_cons, hall args ih]
      rfl
  | param var upper lower d ihu ihl =>
      have hlower : (nodesOfOption (lower.map (mapVars f))).map dims =
          (nodesOfOption lower).map dims := by
        cases lower with
        | none => rfl
        | some t => exact ihl t rfl
      rw [mapVars_param, nodes, nodes, List.map_cons, List.map_cons, List.map_append,
        List.map_append, hall upper ihu, hlower]
      rfl

theorem dims_mapVars (f : TypeVar → TypeVar) (t : TypeRef) : (t.mapVars f).dims = t.dims := by
  cases t with
  | declared => rw [mapVars_declared]; rfl
  | param => rw [mapVars_param]; rfl

theorem everyDims_mapVars_iff {f : TypeVar → TypeVar} :
    (t.mapVars f).EveryDims P ↔ t.EveryDims P := by
  unfold EveryDims
  rw [← List.forall_mem_map, map_dims_nodes_mapVars, List.forall_mem_map]

theorem innerDims_mapVars_iff {f : TypeVar → TypeVar} :
    (t.mapVars f).InnerDims P ↔ t.InnerDims P := by
  unfold InnerDims
  rw [← List.forall_mem_map, List.map_tail, map_dims_nodes_mapVars, ← List.map_tail,
    List.forall_mem_map]

theorem dims_eq_of_root {u : TypeRef} (h : t.root = u.root) : t.dims = u.dims := by
  cases t with
  | declared =>
      cases u with
      | declared => exact (Root.declared.inj h).2
      | param => cases h
  | param =>
      cases u with
      | declared => cases h
      | param => exact (Root.param.inj h).2

/-- What holds of dimensions inside of one another holds after types were put at places, if it holds
of these. -/
theorem EveryDims.replaceAt (haround : ∀ outer inner, P outer → P inner → P (outer.around inner))
    {answers : Answers} (h : t.EveryDims P)
    (hput : ∀ o ∈ t.occurrences, ∀ r, answers o.place = some r → r.EveryDims P) :
    (t.replaceAt answers).EveryDims P := by
  induction t using inductOnChildren generalizing answers with
  | h t ih =>
      obtain ⟨hdims, hchildren⟩ := everyDims_iff_child?.mp h
      -- nothing is put here, or all that was here is gone
      have hcases : (∀ p, t.param? = some p → answers [] = none) ∨
          ∃ p r, t.param? = some p ∧ answers [] = some r := by
        cases t.param? with
        | none => exact Or.inl fun _ hp => by cases hp
        | some p =>
            cases answers [] with
            | none => exact Or.inl fun _ _ => rfl
            | some r => exact Or.inr ⟨p, r, rfl, rfl⟩
      rcases hcases with hhere | ⟨p, r, hp, hr⟩
      · rw [everyDims_iff_child?]
        refine ⟨?_, fun step v hv => ?_⟩
        · rw [dims_eq_of_root (root_replaceAt hhere)]
          exact hdims
        · rw [child?_replaceAt hhere] at hv
          obtain ⟨u, hu, rfl⟩ := Option.map_eq_some_iff.mp hv
          exact ih step u hu (hchildren step u hu) fun o ho =>
            hput (o.behind step) (cons_mem_occurrences_iff.mpr ⟨u, hu, ho⟩)
      · have hput' := hput ⟨[], p⟩ (nil_mem_occurrences_iff.mpr hp) r hr
        cases t with
        | declared => cases hp
        | param var upper lower dims =>
            rw [TypeRef.replaceAt, hr]
            exact hput'.withDims (haround _ _ hdims (everyDims_iff.mp hput').1)

/-- **A rewriting keeps what holds of dimensions**, if it holds of all that its function puts
anywhere. -/
theorem EveryDims.of_runFrom (haround : ∀ outer inner, P outer → P inner → P (outer.around inner))
    {ε σ : Type} {f : Rewriter ε σ} {s s' : σ} {u : TypeRef} {calls : List (Call ε)}
    (hrun : runFrom (rewriteM (recording f) t) (s, []) = (.ok u, s', calls)) (h : t.EveryDims P)
    (hput : ∀ call ∈ calls, ∀ r, call.answer = .ok (some r) → r.EveryDims P) : u.EveryDims P := by
  obtain ⟨answers, calls', result, s'', -, hrun', -, htraversed⟩ := exists_walks_rewriteM f t s
  obtain ⟨rfl, -, rfl⟩ : result = .ok u ∧ s'' = s' ∧ calls' = calls := by
    simpa using (hrun' []).symm.trans hrun
  have hok := htraversed.forall_of_ok rfl
  obtain ⟨hcalls, hvalue⟩ := htraversed.eq_of_ok hok
  rw [Except.ok.inj hvalue]
  refine h.replaceAt haround fun o ho r hr => hput (Call.of answers o) ?_ r (congrArg Except.ok hr)
  rw [hcalls]
  exact List.mem_map_of_mem ho

theorem EveryDims.rewrite (haround : ∀ outer inner, P outer → P inner → P (outer.around inner))
    {g : TypeParam → Option TypeRef} (h : t.EveryDims P)
    (hput : ∀ p r, g p = some r → r.EveryDims P) : (t.rewrite g).EveryDims P := by
  obtain ⟨answers, heq, hanswers⟩ := exists_rewrite_eq_replaceAt g t
  rw [heq]
  refine h.replaceAt haround fun o ho r hr => hput (o.offered answers) r ?_
  rw [← hanswers o ho]
  exact hr

/-! ## What is built of types -/

/-- The reference is built of declared types and parameters, by any of the operations on references.
A rewriting may put anything that has dimensions that fit. -/
inductive Built : TypeRef → Prop where
  | declared (name : DeclaredName) {args : List TypeRef} :
      (∀ a ∈ args, Built a) → Built (.declared name args .scalar)
  | param (var : TypeVar) {upper : List TypeRef} {lower : Option TypeRef} :
      (∀ b ∈ upper, Built b) → (∀ b, lower = some b → Built b) →
      Built (.param var upper lower .scalar)
  | withDepth {t : TypeRef} (depth : Nat) : Built t → Built (t.withDepth depth)
  | markVarargs {t : TypeRef} : Built t → Built t.markVarargs
  | qualify {t : TypeRef} (qualifier : String) : Built t → Built (t.qualify qualifier)
  | requalify {t : TypeRef} (old new : String) : Built t → Built (t.requalify old new)
  | normalized {t : TypeRef} : Built t → Built t.normalized
  | rewritten {ε σ : Type} {f : Rewriter ε σ} {s s' : σ} {t u : TypeRef} {calls : List (Call ε)} :
      Built t → runFrom (rewriteM (recording f) t) (s, []) = (.ok u, s', calls) →
      (∀ call ∈ calls, ∀ r, call.answer = .ok (some r) → r.EveryDims Dims.Fit) → Built u

/-- **Whatever is built has dimensions that fit**, at every node. -/
theorem Built.everyDims {t : TypeRef} (h : Built t) : t.EveryDims Dims.Fit := by
  induction h with
  | declared name _ ih => exact everyDims_declared_iff.mpr ⟨Dims.fit_scalar, ih⟩
  | param var _ _ ihu ihl => exact everyDims_param_iff.mpr ⟨Dims.fit_scalar, ihu, ihl⟩
  | @withDepth t depth _ ih => exact ih.withDims (t.dims.fit_withDepth depth)
  | @markVarargs t _ ih => exact ih.withDims t.dims.fit_markVarargs
  | @qualify t qualifier _ ih =>
      rw [qualify_eq_mapVars]
      exact everyDims_mapVars_iff.mpr ih
  | @requalify t old new _ ih =>
      rw [requalify_eq_mapVars]
      exact everyDims_mapVars_iff.mpr ih
  | @normalized t _ ih =>
      rw [normalized_eq_mapVars]
      exact everyDims_mapVars_iff.mpr ih
  | rewritten _ hrun hput ih =>
      exact .of_runFrom (fun _ _ ho hi => ho.around hi) hrun ih hput

end TypeRef

end TraitWeaver
