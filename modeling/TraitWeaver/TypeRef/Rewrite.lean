import TraitWeaver.TypeRef.Basic

/-!
# Rewriting the parameters of a type reference

`rewriteM` offers every type parameter of a reference to a function, from the inside out: the bounds
of a parameter are rewritten before the parameter is offered, and what the function puts in its
place is left as it is. Qualifying, requalifying and stripping qualifiers are such rewritings.
-/

namespace TraitWeaver.TypeRef

/-- What stands in the place of an occurrence keeps the occurrence's dimensions on top of its
own. -/
def under (t : TypeRef) (outer : Dims) : TypeRef := t.withDims (outer.around t.dims)

section

variable {m : Type → Type} [Monad m]

mutual

/-- Offers every type parameter, bounds first, to `f`, which either puts a reference in its place
or declines. -/
def rewriteM (f : TypeParam → m (Option TypeRef)) : TypeRef → m TypeRef
  | .declared name args dims => do
    let args ← rewriteListM f args
    return .declared name args dims
  | .param var upper lower dims => do
    let upper ← rewriteListM f upper
    let lower ← rewriteOptionM f lower
    match ← f ⟨var, upper, lower⟩ with
    | some replacement => return replacement.under dims
    | none => return .param var upper lower dims

/-- Rewrites several references, the first one first. -/
def rewriteListM (f : TypeParam → m (Option TypeRef)) : List TypeRef → m (List TypeRef)
  | [] => return []
  | t :: ts => do
    let t ← rewriteM f t
    let ts ← rewriteListM f ts
    return t :: ts

def rewriteOptionM (f : TypeParam → m (Option TypeRef)) : Option TypeRef → m (Option TypeRef)
  | none => return none
  | some t => do
    let t ← rewriteM f t
    return some t

end

end

/-- Rewriting with a function that has no effects. -/
def rewrite (f : TypeParam → Option TypeRef) (t : TypeRef) : TypeRef :=
  Id.run (rewriteM (fun p => pure (f p)) t)

theorem rewriteListM_id (f : TypeParam → Option TypeRef) (ts : List TypeRef) :
    Id.run (rewriteListM (fun p => pure (f p)) ts) = ts.map (rewrite f) := by
  induction ts with
  | nil => rfl
  | cons t ts ih => exact congrArg (rewrite f t :: ·) ih

theorem rewriteOptionM_id (f : TypeParam → Option TypeRef) (t : Option TypeRef) :
    Id.run (rewriteOptionM (fun p => pure (f p)) t) = t.map (rewrite f) := by
  cases t <;> rfl

/-- Rewriting keeps a declared type and goes into its arguments. -/
theorem rewrite_declared (f : TypeParam → Option TypeRef) (name : DeclaredName)
    (args : List TypeRef) (dims : Dims) :
    rewrite f (.declared name args dims) = .declared name (args.map (rewrite f)) dims := by
  rw [← rewriteListM_id]
  rfl

/-- A parameter is offered with its bounds rewritten. -/
theorem rewrite_param (f : TypeParam → Option TypeRef) (var : TypeVar) (upper : List TypeRef)
    (lower : Option TypeRef) (dims : Dims) :
    rewrite f (.param var upper lower dims) =
      match f ⟨var, upper.map (rewrite f), lower.map (rewrite f)⟩ with
      | some replacement => replacement.under dims
      | none => .param var (upper.map (rewrite f)) (lower.map (rewrite f)) dims := by
  rw [← rewriteListM_id, ← rewriteOptionM_id]
  simp only [rewrite, rewriteM, Id.run, bind, pure]
  cases f _ <;> rfl

/-! ## Qualifiers -/

/-- Qualifies every variable that has no qualifier yet. -/
def qualify (t : TypeRef) (qualifier : String) : TypeRef :=
  t.rewrite fun p =>
    if p.isWildcard || p.var.qualifier.isSome then none
    else some (p.withQualifier (some qualifier)).toRef

/-- Moves every variable qualified by `old` to the qualifier `new`. -/
def requalify (t : TypeRef) (old new : String) : TypeRef :=
  t.rewrite fun p =>
    if p.var.qualifier = some old then some (p.withQualifier (some new)).toRef else none

/-- Strips the qualifier from every variable. -/
def normalized (t : TypeRef) : TypeRef :=
  t.rewrite fun p =>
    if p.var.qualifier.isSome then some (p.withQualifier none).toRef else none

end TraitWeaver.TypeRef

namespace TraitWeaver

/-- Moves a parameter, its bounds included, from one qualifier to another. -/
def TypeParam.requalify (p : TypeParam) (old new : String) : TypeParam :=
  { var := if p.var.qualifier = some old then ⟨p.var.name, some new⟩ else p.var
    upper := p.upper.map (·.requalify old new)
    lower := p.lower.map (·.requalify old new) }

end TraitWeaver
