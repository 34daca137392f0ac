import TraitWeaver.Proofs.NameOrder
import TraitWeaver.Proofs.Positions

/-!
# The two equalities of types

There are two senses in which types are equal. References, and the parameters and
signatures that are made of them, are compared in all that is in them: methods that
differ in an argument of an argument are two methods. Declared types in a set or in a
list of imports are compared by name alone, since it takes one import for all the uses of
a type.

A reference is compared by a walk that goes from declared types to arguments, from
variables to bounds, and back. If only one of these ways led to the comparison by name,
that would go unnoticed on most types. So equality is stated by positions, of which each
has a say (`TypeRef.beq_iff_matches`), and not by the forms that a reference may have.
-/

namespace TraitWeaver

/-! ## References -/

namespace TypeRef

variable {t u : TypeRef}

theorem beq_iff_matches : t.beq u = true ↔ t.Matches (· = ·) u :=
  beq_iff.trans matches_eq_iff.symm

theorem beq_eq_beq (t u : TypeRef) : (t == u) = t.beq u := by
  rw [Bool.eq_iff_iff, beq_iff_eq, beq_iff]

/-- The declared type at a position, with its arguments. -/
def declaredAt? (t : TypeRef) (path : List Step) : Option DeclaredType :=
  (t.at? path).bind declared?

/-- **One declared type that is not the same in everything tells references apart**, at whatever
position it stands. -/
theorem beq_eq_false_of_declaredAt? {path : List Step} {d e : DeclaredType}
    (hd : t.declaredAt? path = some d) (he : u.declaredAt? path = some e) (hne : d ≠ e) :
    t.beq u = false := by
  rw [Bool.eq_false_iff]
  intro h
  obtain rfl := beq_iff.mp h
  rw [hd] at he
  exact hne (Option.some.inj he)

end TypeRef

/-! ## Declared types -/

namespace DeclaredType

variable {d e : DeclaredType}

/-- Equal declared types are equal as uses, with all their arguments. -/
theorem eq_iff_matches : d = e ↔ d.toRef.Matches (· = ·) e.toRef := by
  obtain ⟨name, args⟩ := d
  obtain ⟨name', args'⟩ := e
  rw [TypeRef.matches_eq_iff]
  unfold toRef
  rw [DeclaredType.mk.injEq, TypeRef.declared.injEq, and_iff_left rfl]

theorem sameType_iff : d.sameType e = true ↔ d.name = e.name := beq_iff_eq

/-- **Declared types that stand at one place are the same type**, and no others do. -/
theorem compare_eq_iff : d.compare e = .eq ↔ d.sameType e = true := by
  rw [sameType_iff]
  refine ⟨DeclaredName.eq_of_compare, fun h => ?_⟩
  unfold compare
  rw [h, DeclaredName.compare_self]

theorem compare_swap (d e : DeclaredType) : d.compare e = (e.compare d).swap := by
  unfold compare
  exact Std.OrientedCmp.eq_swap

theorem compare_isLE_trans {f : DeclaredType} (hde : (d.compare e).isLE)
    (hef : (e.compare f).isLE) : (d.compare f).isLE := by
  unfold compare at hde hef ⊢
  exact Std.TransCmp.isLE_trans hde hef

/-- What makes the order by name a total one, in which types of one name count as one. -/
structure OrderedByName (d e f : DeclaredType) : Prop where
  swap : d.compare e = (e.compare d).swap
  total : (d.compare e).isLE ∨ (e.compare d).isLE
  trans : (d.compare e).isLE → (e.compare f).isLE → (d.compare f).isLE
  antisymm : (d.compare e).isLE → (e.compare d).isLE → d.sameType e = true

theorem orderedByName (d e f : DeclaredType) : OrderedByName d e f where
  swap := compare_swap d e
  total := by
    rw [compare_swap d e]
    cases e.compare d with
    | lt => exact Or.inr rfl
    | eq | gt => exact Or.inl rfl
  trans := compare_isLE_trans
  antisymm hde hed := by
    unfold compare at hde hed
    have heq := Std.OrientedCmp.isLE_antisymm hde hed
    exact compare_eq_iff.mp heq

end DeclaredType

/-- Equal type parameters are equal as uses, with all their bounds. -/
theorem TypeParam.eq_iff_matches {p q : TypeParam} : p = q ↔ p.toRef.Matches (· = ·) q.toRef := by
  obtain ⟨var, upper, lower⟩ := p
  obtain ⟨var', upper', lower'⟩ := q
  rw [TypeRef.matches_eq_iff]
  unfold toRef
  rw [TypeParam.mk.injEq, TypeRef.param.injEq, and_iff_left rfl]

/-! ## What is compared how -/

/-- **Equality of references is that of trees, and of declared types that of names.**

* References are equal exactly if the same stands at each of their positions, and so are
  parameters and signatures. No declared type in them is compared by name alone.
* Apart from the references that they are in, declared types and type parameters can be compared in
  everything, too.
* By name, declared types are the same exactly if they share a place in the order, which is total.
  Neither depends on arguments. -/
theorem equality_structural :
    (∀ t u : TypeRef, (t == u) = t.beq u ∧ (t.beq u = true ↔ t.Matches (· = ·) u) ∧
      (t.Matches (· = ·) u ↔ t = u)) ∧
    (∀ (t u : TypeRef) (path : List TypeRef.Step) (d e : DeclaredType),
      t.declaredAt? path = some d → u.declaredAt? path = some e → d ≠ e → t.beq u = false) ∧
    (∀ p q : Parameter, (p == q) = true ↔ p.Matches (· = ·) q) ∧
    (∀ s s' : Signature, (s == s') = true ↔ s.Matches (· = ·) s') ∧
    (∀ d e : DeclaredType, (d == e) = true ↔ d.toRef.Matches (· = ·) e.toRef) ∧
    (∀ p q : TypeParam, (p == q) = true ↔ p.toRef.Matches (· = ·) q.toRef) ∧
    (∀ d e : DeclaredType,
      (d.sameType e = true ↔ d.name.package = e.name.package ∧ d.name.simple = e.name.simple) ∧
      (d.compare e = .eq ↔ d.sameType e = true) ∧
      d.compare e = (DeclaredType.plain d.name).compare (.plain e.name)) ∧
    ∀ d e f : DeclaredType, DeclaredType.OrderedByName d e f := by
  refine ⟨fun t u => ⟨t.beq_eq_beq u, TypeRef.beq_iff_matches, TypeRef.matches_eq_iff⟩,
    fun t u path d e => TypeRef.beq_eq_false_of_declaredAt?,
    fun p q => beq_iff_eq.trans Parameter.matches_eq_iff.symm,
    fun s s' => beq_iff_eq.trans Signature.matches_eq_iff.symm,
    fun d e => beq_iff_eq.trans DeclaredType.eq_iff_matches,
    fun p q => beq_iff_eq.trans TypeParam.eq_iff_matches, fun d e => ⟨?_, ?_, rfl⟩,
    DeclaredType.orderedByName⟩
  · rw [DeclaredType.sameType_iff, DeclaredName.mk.injEq]
  · exact DeclaredType.compare_eq_iff

/-- `List<? extends Set<Integer>>` and `List<? extends Set<String>>` are not equal, although the
types in which they differ have one name and share a place in the order. -/
theorem equality_structural_sets :
    let set (arg : String) : DeclaredType := ⟨⟨"java.util", "Set"⟩, [.plain ⟨"java.lang", arg⟩]⟩
    let list (arg : String) : TypeRef := .declared ⟨"java.util", "List"⟩
      [.param (.plain TypeVar.wildcardName) [(set arg).toRef] none .scalar] .scalar
    let path : List TypeRef.Step := [.arg 0, .upper 0]
    (list "Integer").declaredAt? path = some (set "Integer") ∧
      (list "String").declaredAt? path = some (set "String") ∧
      set "Integer" ≠ set "String" ∧
      (list "Integer").beq (list "String") = false ∧
      (set "Integer").sameType (set "String") = true ∧
      (set "Integer").compare (set "String") = .eq := by
  intro set list path
  have hd : (list "Integer").declaredAt? path = some (set "Integer") := rfl
  have he : (list "String").declaredAt? path = some (set "String") := rfl
  have hne : set "Integer" ≠ set "String" := by decide
  have hsame : (set "Integer").sameType (set "String") = true := rfl
  obtain ⟨-, hdiffer, -, -, -, -, hname, -⟩ := equality_structural
  exact ⟨hd, he, hne, hdiffer _ _ path _ _ hd he hne, hsame, (hname _ _).2.1.mpr hsame⟩

end TraitWeaver
