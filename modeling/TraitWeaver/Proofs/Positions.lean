import Mathlib.Tactic.MkIffOfInductiveProp
import TraitWeaver.Proofs.Outcome
import TraitWeaver.Proofs.Qualifier

/-!
# Positions in a type

Whether two references are alike is asked in more than one sense, and each time of
all that is in them: of arguments in bounds of arguments as much as of the type on the
outside. A *position* leads from a reference to one of those, and a reference is
known by what stands at its positions, one by one and without what is nested there
(`rootAt?`).

`Matches` compares by positions in whatever sense is given for a single one. There
are two laws about it: if nothing at all may differ, the references are equal
(`matches_eq_iff`); and a renaming acts on each position by itself
(`rootAt?_mapVars`).
-/

namespace TraitWeaver

namespace TypeRef

/-- A reference without the references that are nested in it. -/
inductive Root where
  | declared (name : DeclaredName) (dims : Dims)
  | param (var : TypeVar) (dims : Dims)

/-- One step into a reference, to an argument or to a bound. -/
inductive Step where
  | arg (index : Nat)
  | upper (index : Nat)
  | lower

def root : TypeRef → Root
  | .declared name _ dims => .declared name dims
  | .param var _ _ dims => .param var dims

/-- The reference that a step leads to, if there is one. -/
def child? : TypeRef → Step → Option TypeRef
  | .declared _ args _, .arg i => args[i]?
  | .param _ upper _ _, .upper i => upper[i]?
  | .param _ _ lower _, .lower => lower
  | _, _ => none

/-- The reference at a position. -/
def at? (t : TypeRef) : List Step → Option TypeRef
  | [] => some t
  | step :: path => (t.child? step).bind (·.at? path)

/-- What stands at a position, if the reference has it. -/
def rootAt? (t : TypeRef) (path : List Step) : Option Root := (t.at? path).map root

theorem rootAt?_cons (t : TypeRef) (step : Step) (path : List Step) :
    t.rootAt? (step :: path) = (t.child? step).bind (·.rootAt? path) := Option.map_bind

/-! ## Equal references -/

/-- What holds of a reference as soon as it holds one step further in holds of all. -/
theorem inductOnChildren {motive : TypeRef → Prop}
    (h : ∀ t, (∀ step t', t.child? step = some t' → motive t') → motive t) (t : TypeRef) :
    motive t := by
  induction t with
  | declared name args dims ih =>
      refine h _ fun step t' ht' => ?_
      cases step with
      | arg i => exact ih t' (List.mem_of_getElem? ht')
      | upper i => cases ht'
      | lower => cases ht'
  | param var upper lower dims ihu ihl =>
      refine h _ fun step t' ht' => ?_
      cases step with
      | arg i => cases ht'
      | upper i => exact ihu t' (List.mem_of_getElem? ht')
      | lower => exact ihl t' ht'

variable {t u : TypeRef}

/-- A reference is what stands on its outside and what is one step further in. -/
theorem eq_of_child? (hroot : t.root = u.root) (hchild : ∀ step, t.child? step = u.child? step) :
    t = u := by
  cases t with
  | declared name args dims =>
      cases u with
      | declared name' args' dims' =>
          obtain ⟨rfl, rfl⟩ := Root.declared.inj hroot
          have hargs : args = args' := List.ext_getElem? fun i => hchild (.arg i)
          rw [hargs]
      | param => cases hroot
  | param var upper lower dims =>
      cases u with
      | declared => cases hroot
      | param var' upper' lower' dims' =>
          obtain ⟨rfl, rfl⟩ := Root.param.inj hroot
          have hupper : upper = upper' := List.ext_getElem? fun i => hchild (.upper i)
          have hlower : lower = lower' := hchild .lower
          rw [hupper, hlower]

/-- **A reference is known by what stands at its positions.** -/
theorem eq_of_rootAt? (h : ∀ path, t.rootAt? path = u.rootAt? path) : t = u := by
  induction t using inductOnChildren generalizing u with
  | h t ih =>
      refine eq_of_child? (Option.some.inj (h [])) fun step => ?_
      have hstep : ∀ path, (t.child? step).bind (·.rootAt? path) =
          (u.child? step).bind (·.rootAt? path) := by
        intro path
        rw [← rootAt?_cons, ← rootAt?_cons]
        exact h (step :: path)
      -- the empty path tells whether there is anything to step to
      cases ht : t.child? step with
      | none =>
          cases hu : u.child? step with
          | none => rfl
          | some u' =>
              rw [ht, hu] at hstep
              cases hstep []
      | some t' =>
          cases hu : u.child? step with
          | none =>
              rw [ht, hu] at hstep
              cases hstep []
          | some u' =>
              rw [ht, hu] at hstep
              exact congrArg some (ih step t' ht hstep)

/-! ## Renaming -/

/-- Renames the variable, if there is one. -/
def Root.mapVar (f : TypeVar → TypeVar) : Root → Root
  | .declared name dims => .declared name dims
  | .param var dims => .param (f var) dims

theorem root_mapVars (f : TypeVar → TypeVar) (t : TypeRef) :
    (t.mapVars f).root = t.root.mapVar f := by
  cases t with
  | declared => rw [mapVars_declared, root, root, Root.mapVar]
  | param => rw [mapVars_param, root, root, Root.mapVar]

theorem child?_mapVars (f : TypeVar → TypeVar) (t : TypeRef) (step : Step) :
    (t.mapVars f).child? step = (t.child? step).map (mapVars f) := by
  cases t with
  | declared =>
      rw [mapVars_declared]
      cases step with
      | arg i => exact List.getElem?_map
      | upper | lower => rfl
  | param =>
      rw [mapVars_param]
      cases step with
      | upper i => exact List.getElem?_map
      | arg | lower => rfl

/-- **A renaming acts on each position by itself.** -/
theorem rootAt?_mapVars (f : TypeVar → TypeVar) (t : TypeRef) (path : List Step) :
    (t.mapVars f).rootAt? path = (t.rootAt? path).map (Root.mapVar f) := by
  induction path generalizing t with
  | nil => exact congrArg some (root_mapVars f t)
  | cons step path ih =>
      rw [rootAt?_cons, rootAt?_cons, child?_mapVars, Option.map_bind, Option.bind_map]
      exact Option.bind_congr fun t' _ => ih t'

/-! ## Matching -/

/-- The references have the same positions, and at each of them what stands there is related. -/
def Matches (R : Root → Root → Prop) (t u : TypeRef) : Prop :=
  ∀ path, Option.Rel R (t.rootAt? path) (u.rootAt? path)

variable {R S : Root → Root → Prop}

/-- **References match in everything if and only if they are equal.** -/
theorem matches_eq_iff : t.Matches (· = ·) u ↔ t = u := by
  refine ⟨fun h => eq_of_rootAt? fun path => optionRel_eq_iff.mp (h path), ?_⟩
  rintro rfl path
  exact optionRel_eq_iff.mpr rfl

/-- **References match after a renaming** in what their variables are renamed to. -/
theorem matches_mapVars_iff {f : TypeVar → TypeVar} : (t.mapVars f).Matches R (u.mapVars f) ↔
    t.Matches (fun r r' => R (r.mapVar f) (r'.mapVar f)) u := by
  refine forall_congr' fun path => ?_
  rw [rootAt?_mapVars, rootAt?_mapVars]
  exact optionRel_map_iff

theorem forall₂_matches_eq_iff {ts us : List TypeRef} :
    List.Forall₂ (Matches (· = ·)) ts us ↔ ts = us := by
  have heq : Matches (· = ·) = (· = ·) := funext fun t => funext fun u => propext matches_eq_iff
  rw [heq, List.forall₂_eq_eq_eq]

end TypeRef

/-! ## Signatures -/

/-- The parameters have one name and types that match. -/
@[mk_iff]
structure Parameter.Matches (R : TypeRef.Root → TypeRef.Root → Prop) (p q : Parameter) : Prop where
  type : p.type.Matches R q.type
  name : p.name = q.name

/-- The signatures have one name, and their types match, each in its place. -/
@[mk_iff]
structure Signature.Matches (R : TypeRef.Root → TypeRef.Root → Prop) (s s' : Signature) : Prop where
  name : s.name = s'.name
  returns : s.returns.Matches R s'.returns
  args : List.Forall₂ (TypeRef.Matches R) s.args s'.args
  throws : List.Forall₂ (TypeRef.Matches R) s.throws s'.throws

theorem Parameter.matches_eq_iff {p q : Parameter} : p.Matches (· = ·) q ↔ p = q := by
  obtain ⟨type, name⟩ := p
  obtain ⟨type', name'⟩ := q
  rw [Parameter.matches_iff, TypeRef.matches_eq_iff, Parameter.mk.injEq]

theorem Signature.matches_eq_iff {s s' : Signature} : s.Matches (· = ·) s' ↔ s = s' := by
  obtain ⟨name, returns, args, throws⟩ := s
  obtain ⟨name', returns', args', throws'⟩ := s'
  rw [Signature.matches_iff, TypeRef.matches_eq_iff, TypeRef.forall₂_matches_eq_iff,
    TypeRef.forall₂_matches_eq_iff, Signature.mk.injEq]

end TraitWeaver
