import TraitWeaver.Proofs.NameOrder
import TraitWeaver.Proofs.SourceInduction

/-!
# What is never gathered

The root of the hierarchy and the primitives are never among the types that a file
mentions: a reference leaves them out, and everything else mentions what its
references mention. For the root this matters. It is written without ever having
been made known, so whether its simple name is free has to be read off the other
types.
-/

namespace TraitWeaver

theorem TypeRef.isImportable_of_mem_mentions {t : TypeRef} {n : DeclaredName}
    (h : n ∈ t.mentions) : n.isImportable = true :=
  (List.mem_filter.mp h).2

/-- Each of some types may have to be imported. -/
def AllImportable (types : List DeclaredName) : Prop := ∀ n ∈ types, n.isImportable = true

namespace AllImportable

theorem append {types types' : List DeclaredName} (h : AllImportable types)
    (h' : AllImportable types') : AllImportable (types ++ types') := by
  intro n hn
  rcases List.mem_append.mp hn with hn | hn
  · exact h n hn
  · exact h' n hn

theorem flatMap {α : Type} {as : List α} {mentions : α → List DeclaredName}
    (h : ∀ a ∈ as, AllImportable (mentions a)) : AllImportable (as.flatMap mentions) := by
  intro n hn
  obtain ⟨a, ha, hn⟩ := List.mem_flatMap.mp hn
  exact h a ha n hn

theorem nil : AllImportable [] := fun _ hn => absurd hn List.not_mem_nil

theorem type (t : TypeRef) : AllImportable t.mentions := fun _ => t.isImportable_of_mem_mentions

theorem types (ts : List TypeRef) : AllImportable (ts.flatMap (·.mentions)) :=
  flatMap fun t _ => type t

theorem typeParams (params : List TypeParam) : AllImportable (params.flatMap (·.mentions)) :=
  flatMap fun p _ => types p.upper

end AllImportable

namespace Expr

theorem allImportable_receiver {receiver : Receiver}
    (h : ∀ e, receiver = .expr e → AllImportable e.mentions) :
    AllImportable receiver.mentions := by
  cases receiver with
  | none => exact AllImportable.nil
  | this => exact AllImportable.nil
  | super => exact AllImportable.nil
  | static type => exact AllImportable.type type
  | expr e => exact h e rfl

theorem allImportable_mentionsOfAll {es : List Expr} (h : ∀ e ∈ es, AllImportable e.mentions) :
    AllImportable (mentionsOfAll es) := by
  rw [mentionsOfAll_eq_flatMap]
  exact AllImportable.flatMap h

theorem allImportable_mentions (e : Expr) : AllImportable e.mentions := by
  induction e with
  | literal text => exact AllImportable.nil
  | this => exact AllImportable.nil
  | reference receiver name ih => exact allImportable_receiver ih
  | assign target value ihTarget ihValue => exact ihTarget.append ihValue
  | cast type operand ih => exact (AllImportable.type type).append ih
  | construct type args diamond ih =>
      exact (AllImportable.type type).append (allImportable_mentionsOfAll ih)
  | call receiver name args ihReceiver ihArgs =>
      exact (allImportable_receiver ihReceiver).append (allImportable_mentionsOfAll ihArgs)
  | newArray type sizes items ihSizes ihItems =>
      exact ((AllImportable.type type).append (allImportable_mentionsOfAll ihSizes)).append
        (allImportable_mentionsOfAll ihItems)
  | element array index ihArray ihIndex => exact ihArray.append ihIndex
  | result value ih =>
      cases value with
      | none => exact AllImportable.nil
      | some e => exact ih e rfl

end Expr

/-! ## Headings, members and files -/

theorem TypeHeading.allImportable_mentions (h : TypeHeading) : AllImportable h.mentions :=
  (AllImportable.typeParams h.typeParams).append (AllImportable.types _)

theorem MethodHeading.allImportable_mentions (h : MethodHeading) : AllImportable h.mentions :=
  ((AllImportable.flatMap fun a _ => AllImportable.type a.toRef).append
    (AllImportable.typeParams h.typeParams)).append (AllImportable.types _)

theorem Field.allImportable_mentions (f : Field) : AllImportable f.mentions := by
  refine (AllImportable.type f.type).append ?_
  rw [Expr.mentionsOfOption_eq_flatMap]
  exact AllImportable.flatMap fun e _ => e.allImportable_mentions

theorem Member.allImportable_mentions (m : Member) : AllImportable m.mentions := by
  induction m with
  | field f => exact f.allImportable_mentions
  | abstract h => exact h.allImportable_mentions
  | method h body =>
      exact h.allImportable_mentions.append
        (Expr.allImportable_mentionsOfAll fun e _ => e.allImportable_mentions)
  | nested h members ih =>
      rw [mentions, mentionsOfAll_eq_flatMap]
      exact h.allImportable_mentions.append (AllImportable.flatMap ih)

namespace CompilationUnit

/-- **A file never mentions the root of the hierarchy or a primitive.** -/
theorem allImportable_mentions (u : CompilationUnit) : AllImportable u.mentions := by
  -- the type of a file mentions what a type in it would
  have h := (Member.nested u.body.heading u.body.members).allImportable_mentions
  exact fun n hn => h n (DeclaredName.mem_sortedSet.mp hn)

theorem root_not_mem_mentions (u : CompilationUnit) : DeclaredName.root ∉ u.mentions := by
  intro h
  exact (DeclaredName.isImportable_iff.mp (u.allImportable_mentions _ h)).1 rfl

end CompilationUnit

end TraitWeaver
