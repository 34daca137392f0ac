import Mathlib.Data.List.Sort
import TraitWeaver.DeclaredName

/-!
# The order of names

A file gathers the types that it mentions into a sorted set. The list behind it
owes two things to whoever reads it:

* it holds **the same names** as the list that it was gathered from;
* it **increases**. So no name is listed twice, and of the names with some
  property the first in the list is the least.

Packages come first in the order. Among names with one simple name the least is
therefore the one whose package is the least.
-/

namespace TraitWeaver

/-- In one order there is only one way to list the same members increasingly. -/
theorem eq_of_increasing {α : Type} {c : α → α → Ordering} [Std.TransCmp c] {l l' : List α}
    (h : l.Pairwise fun a b => c a b = .lt) (h' : l'.Pairwise fun a b => c a b = .lt)
    (hmem : ∀ a, a ∈ l ↔ a ∈ l') : l = l' := by
  -- nothing is before itself, nor are two before each other
  have hirrefl : Std.Irrefl fun a b => c a b = .lt := by
    refine ⟨fun a ha => ?_⟩
    have hself : c a a = .eq := Std.ReflCmp.compare_self
    rw [hself] at ha
    cases ha
  have hantisymm : Std.Antisymm fun a b => c a b = .lt :=
    ⟨fun a _ hab hba => absurd (Std.TransCmp.lt_trans hab hba) (hirrefl.irrefl a)⟩
  exact h.eq_of_mem_iff h' hmem

namespace DeclaredName

theorem compare_eq_compareLex :
    DeclaredName.compare = compareLex (compareOn (·.package)) (compareOn (·.simple)) := rfl

instance : Std.TransCmp DeclaredName.compare := by
  rw [compare_eq_compareLex]
  infer_instance

/-- Only equal names stand at one place in the order. -/
theorem eq_of_compare {a b : DeclaredName} (h : a.compare b = .eq) : a = b := by
  obtain ⟨hp, hs⟩ := Ordering.then_eq_eq.mp h
  have hpackage : a.package = b.package := Std.LawfulEqOrd.eq_of_compare hp
  have hsimple : a.simple = b.simple := Std.LawfulEqOrd.eq_of_compare hs
  calc a = ⟨a.package, a.simple⟩ := rfl
    _ = ⟨b.package, b.simple⟩ := by rw [hpackage, hsimple]
    _ = b := rfl

theorem compare_self (n : DeclaredName) : n.compare n = .eq := Std.ReflCmp.compare_self

theorem ne_of_compare_lt {a b : DeclaredName} (h : a.compare b = .lt) : a ≠ b := by
  intro he
  rw [he, compare_self] at h
  exact absurd h (by simp)

/-- Names with one simple name are ordered by their packages. -/
theorem compare_of_simple_eq {a b : DeclaredName} (h : a.simple = b.simple) :
    a.compare b = Ord.compare a.package b.package := by
  unfold compare
  rw [h, Std.ReflOrd.compare_self, Ordering.then_eq]

/-- Each name is less than those after it. -/
def Increasing (names : List DeclaredName) : Prop := names.Pairwise fun a b => a.compare b = .lt

theorem Increasing.nodup {names : List DeclaredName} (h : Increasing names) : names.Nodup :=
  h.imp ne_of_compare_lt

theorem Increasing.ext {names names' : List DeclaredName} (h : Increasing names)
    (h' : Increasing names') (hmem : ∀ n, n ∈ names ↔ n ∈ names') : names = names' :=
  eq_of_increasing h h' hmem

theorem mem_insertSorted {m n : DeclaredName} {names : List DeclaredName} :
    m ∈ insertSorted n names ↔ m = n ∨ m ∈ names := by
  induction names with
  | nil => rw [insertSorted, List.mem_singleton, or_iff_left List.not_mem_nil]
  | cons first rest ih =>
      rw [insertSorted]
      split
      · exact List.mem_cons
      · -- the name is there already
        rename_i hc
        obtain rfl := eq_of_compare hc
        rw [List.mem_cons, ← or_assoc, or_self]
      · rw [List.mem_cons, ih, List.mem_cons, or_left_comm]

/-- **Insertion keeps the names increasing.** -/
theorem Increasing.insertSorted {names : List DeclaredName} (h : Increasing names)
    (n : DeclaredName) : Increasing (insertSorted n names) := by
  induction names with
  | nil => exact List.pairwise_singleton _ _
  | cons first rest ih =>
      obtain ⟨hfirst, hrest⟩ := List.pairwise_cons.mp h
      rw [DeclaredName.insertSorted]
      split
      · rename_i hc
        refine List.pairwise_cons.mpr ⟨?_, h⟩
        intro m hm
        rcases List.mem_cons.mp hm with rfl | hm
        · exact hc
        · exact Std.TransCmp.lt_trans hc (hfirst m hm)
      · exact h
      · rename_i hc
        refine List.pairwise_cons.mpr ⟨?_, ih hrest⟩
        intro m hm
        rcases mem_insertSorted.mp hm with rfl | hm
        · exact Std.OrientedCmp.gt_iff_lt.mp hc
        · exact hfirst m hm

theorem mem_sortedSet {n : DeclaredName} {names : List DeclaredName} :
    n ∈ sortedSet names ↔ n ∈ names := by
  induction names with
  | nil => exact Iff.rfl
  | cons first rest ih =>
      rw [List.mem_cons, ← ih]
      exact mem_insertSorted

theorem increasing_sortedSet (names : List DeclaredName) : Increasing (sortedSet names) := by
  induction names with
  | nil => exact List.Pairwise.nil
  | cons first rest ih => exact ih.insertSorted first

/-- The first name with a property is the least one that has it. -/
theorem Increasing.isLE_of_find?_eq_some {names : List DeclaredName} (h : Increasing names)
    {p : DeclaredName → Bool} {n m : DeclaredName} (hn : names.find? p = some n) (hm : m ∈ names)
    (hp : p m = true) : (n.compare m).isLE := by
  obtain ⟨-, before, after, rfl, hbefore⟩ := List.find?_eq_some_iff_append.mp hn
  rcases List.mem_append.mp hm with hm | hm
  · -- nothing before the first one has the property
    have hno := hbefore m hm
    rw [hp] at hno
    exact absurd hno (by simp)
  · rcases List.mem_cons.mp hm with rfl | hm
    · rw [compare_self]
      rfl
    · have hlt := (List.pairwise_cons.mp (List.pairwise_append.mp h).2.1).1 m hm
      rw [hlt]
      rfl

end DeclaredName

end TraitWeaver
