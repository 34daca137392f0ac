import TraitWeaver.DeclaredName

/-!
# Type references

A type reference is one occurrence of a type in source text: a declared type with its arguments, or
a type variable (a wildcard is one) with its bounds, under some array dimensions.

* `TypeRef` is the tree; `DeclaredType` and `TypeParam` are its two kinds of node without the
  dimensions, as they stand where a declaration is meant and not a use.
* Two references are equal when their trees are; two declared types are *the same type* when they
  have the same name, whatever their arguments.
-/

namespace TraitWeaver

/-- Array dimensions of one occurrence of a type. The last of them may be a varargs marker. -/
structure Dims where
  depth : Nat
  varargs : Bool
deriving DecidableEq, Repr

namespace Dims

/-- No array at all. -/
def scalar : Dims := ⟨0, false⟩

/-- Sets the depth. What is not an array has no varargs marker. -/
def withDepth (d : Dims) (depth : Nat) : Dims :=
  ⟨depth, d.varargs && depth != 0⟩

/-- Marks the outermost dimension as varargs, and adds one if there is none. -/
def markVarargs (d : Dims) : Dims :=
  ⟨max d.depth 1, true⟩

/-- The dimensions of an occurrence, on top of those of what is put in its place. -/
def around (outer inner : Dims) : Dims :=
  ⟨inner.depth + outer.depth, outer.varargs || inner.varargs⟩

/-- A pair of brackets for each dimension, dots for the varargs one. -/
def text (d : Dims) : String :=
  if d.varargs && d.depth != 0 then
    String.join (List.replicate (d.depth - 1) "[]") ++ "..."
  else
    String.join (List.replicate d.depth "[]")

end Dims

/-- A type variable: its own name, and the qualifier that tells variables of one name apart when
they come from different traits. -/
structure TypeVar where
  name : String
  qualifier : Option String
deriving DecidableEq, Repr

namespace TypeVar

/-- The variable without a qualifier. -/
def plain (name : String) : TypeVar := ⟨name, none⟩

/-- The reserved name of wildcards. -/
def wildcardName : String := "?"

def isWildcard (v : TypeVar) : Bool := v.name = wildcardName

/-- The name as it is written in source text. -/
def sourceName (v : TypeVar) : String :=
  match v.qualifier with
  | some q => s!"{q}_{v.name}"
  | none => v.name

end TypeVar

/-- One occurrence of a type. -/
inductive TypeRef where
  /-- A class, an interface, a primitive or `void`. -/
  | declared (name : DeclaredName) (args : List TypeRef) (dims : Dims)
  /-- A type variable or wildcard with its upper bounds and its lower bound. -/
  | param (var : TypeVar) (upper : List TypeRef) (lower : Option TypeRef) (dims : Dims)
deriving Repr

/-- A declared type with its arguments. -/
structure DeclaredType where
  name : DeclaredName
  args : List TypeRef
deriving Repr

/-- A type variable with its bounds, as a declaration lists it. -/
structure TypeParam where
  var : TypeVar
  upper : List TypeRef
  lower : Option TypeRef
deriving Repr

/-! ## Induction -/

namespace TypeRef

/-- What holds of a reference as soon as it holds of its arguments and bounds holds of all. -/
@[induction_eliminator]
theorem inductOn {motive : TypeRef → Prop}
    (declared : ∀ name args dims, (∀ t ∈ args, motive t) → motive (.declared name args dims))
    (param : ∀ var upper lower dims, (∀ t ∈ upper, motive t) →
      (∀ t, lower = some t → motive t) → motive (.param var upper lower dims))
    (t : TypeRef) : motive t := by
  -- the lists and options inside of references have motives of their own
  refine @TypeRef.rec motive (fun ts => ∀ t ∈ ts, motive t)
    (fun lower => ∀ t, lower = some t → motive t) declared param ?nil ?cons ?none ?some t
  case nil => exact fun _ h => absurd h List.not_mem_nil
  case cons => exact fun t ts ht hts => List.forall_mem_cons.mpr ⟨ht, hts⟩
  case none => exact fun _ h => nomatch h
  case some => exact fun t ht u h => Option.some.inj h ▸ ht

end TypeRef

/-! ## Equality -/

namespace TypeRef

mutual

/-- Compares two references node by node. -/
def beq : TypeRef → TypeRef → Bool
  | .declared n as d, .declared n' as' d' => n == n' && beqList as as' && d == d'
  | .param v us l d, .param v' us' l' d' =>
    v == v' && beqList us us' && beqOption l l' && d == d'
  | _, _ => false

/-- Compares two lists of references, position by position. -/
def beqList : List TypeRef → List TypeRef → Bool
  | [], [] => true
  | t :: ts, t' :: ts' => beq t t' && beqList ts ts'
  | _, _ => false

def beqOption : Option TypeRef → Option TypeRef → Bool
  | none, none => true
  | some t, some t' => beq t t'
  | _, _ => false

end

theorem beqList_iff {ts ts' : List TypeRef}
    (h : ∀ t ∈ ts, ∀ t', beq t t' = true ↔ t = t') : beqList ts ts' = true ↔ ts = ts' := by
  induction ts generalizing ts' with
  | nil => cases ts' <;> simp [beqList]
  | cons t ts ih =>
    cases ts' with
    | nil => simp [beqList]
    | cons t' ts' =>
      rw [beqList, Bool.and_eq_true, h t List.mem_cons_self t',
        ih (fun u hu => h u (List.mem_cons_of_mem _ hu)), List.cons.injEq]

/-- The comparison says yes exactly for equal trees. -/
theorem beq_iff {t t' : TypeRef} : beq t t' = true ↔ t = t' := by
  induction t generalizing t' with
  | declared n as d ih =>
    cases t' with
    | declared n' as' d' =>
      simp only [beq, Bool.and_eq_true, beq_iff_eq, beqList_iff (fun t ht _ => ih t ht),
        TypeRef.declared.injEq, and_assoc]
    | param => simp [beq]
  | param v us l d ihu ihl =>
    cases t' with
    | declared => simp [beq]
    | param v' us' l' d' =>
      have hl : beqOption l l' = true ↔ l = l' := by
        cases l with
        | none => cases l' <;> simp [beqOption]
        | some t =>
          cases l' with
          | none => simp [beqOption]
          | some t' => rw [beqOption, ihl t rfl, Option.some.injEq]
      simp only [beq, Bool.and_eq_true, beq_iff_eq, beqList_iff (fun t ht _ => ihu t ht), hl,
        TypeRef.param.injEq, and_assoc]

instance : DecidableEq TypeRef := fun t t' =>
  decidable_of_iff (beq t t' = true) beq_iff

end TypeRef

deriving instance DecidableEq for DeclaredType
deriving instance DecidableEq for TypeParam

/-- Two declared types are the same type when they have the same name. -/
def DeclaredType.sameType (a b : DeclaredType) : Bool := a.name == b.name

/-- Declared types are listed by name, whatever their arguments. -/
def DeclaredType.compare (a b : DeclaredType) : Ordering := a.name.compare b.name

/-! ## Building and reading references -/

namespace DeclaredType

def plain (name : DeclaredName) : DeclaredType := ⟨name, []⟩

/-- A use of the type that is not an array. -/
def toRef (t : DeclaredType) : TypeRef := .declared t.name t.args .scalar

end DeclaredType

namespace TypeParam

/-- A parameter without qualifier and bounds. -/
def plain (name : String) : TypeParam := ⟨.plain name, [], none⟩

/-- The parameter that stands for an unknown type. -/
def wildcard : TypeParam := plain TypeVar.wildcardName

def isWildcard (p : TypeParam) : Bool := p.var.isWildcard

/-- The name as it is written in source text. -/
def sourceName (p : TypeParam) : String := p.var.sourceName

/-- A use of the parameter that is not an array, with the bounds it carries. -/
def toRef (p : TypeParam) : TypeRef := .param p.var p.upper p.lower .scalar

/-- Gives the parameter its qualifier. It takes one at most once, and a wildcard never. -/
def qualify (p : TypeParam) (qualifier : String) : Except TypeError TypeParam :=
  if p.isWildcard then
    .error .qualifiedWildcard
  else
    match p.var.qualifier with
    | some old => .error (.alreadyQualified p.var.name old)
    | none => .ok { p with var := ⟨p.var.name, some qualifier⟩ }

/-- Another qualifier, or none, with the bounds as they are. -/
def withQualifier (p : TypeParam) (qualifier : Option String) : TypeParam :=
  { p with var := ⟨p.var.name, qualifier⟩ }

/-- The parameter without its bounds, as a use of it is written. -/
def withoutBounds (p : TypeParam) : TypeParam := ⟨p.var, [], none⟩

end TypeParam

namespace TypeRef

/-- A use of a declared type without arguments. -/
def plain (name : DeclaredName) : TypeRef := .declared name [] .scalar

def dims : TypeRef → Dims
  | .declared _ _ d => d
  | .param _ _ _ d => d

def withDims : TypeRef → Dims → TypeRef
  | .declared n as _, d => .declared n as d
  | .param v us l _, d => .param v us l d

def withDepth (t : TypeRef) (depth : Nat) : TypeRef :=
  t.withDims (t.dims.withDepth depth)

/-- Marks the outermost dimension as varargs. -/
def markVarargs (t : TypeRef) : TypeRef :=
  t.withDims t.dims.markVarargs

def declared? : TypeRef → Option DeclaredType
  | .declared n as _ => some ⟨n, as⟩
  | .param .. => none

/-- The type parameter that is referred to. -/
def param? : TypeRef → Option TypeParam
  | .declared .. => none
  | .param v us l _ => some ⟨v, us, l⟩

/-- The name of the declared type that is referred to. -/
def declaredName? (t : TypeRef) : Option DeclaredName := t.declared?.map (·.name)

/-- A reference to nothing: `void` that is not an array. -/
def isVoid (t : TypeRef) : Bool :=
  t.dims.depth = 0 && t.declaredName? == some .void

/-- Refers to the root of the class hierarchy, at any array depth and with any arguments. -/
def refersToRoot (t : TypeRef) : Bool := t.declaredName? == some .root

end TypeRef

end TraitWeaver
