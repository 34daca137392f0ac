import Mathlib.Data.String.Basic
import TraitWeaver.DeclaredName

/-!
# Reading a qualified name

A name is read by its last dot: what stands behind it is the simple name, and what
stands before it is the package, whatever it looks like. So a name is readable
exactly if something stands behind its last dot, and a name that is written in full
is read back.

The converse of the last holds only up to a dot in front: `.Box` is read like `Box`.
-/

namespace TraitWeaver

theorem Text.splitLast_append {sep : Char} {after : List Char} (h : sep ∉ after)
    (before : List Char) : splitLast sep (before ++ sep :: after) = some (before, after) := by
  induction before with
  | nil => rw [List.nil_append, splitLast, splitLast_eq_none_iff.mpr h, if_pos rfl]
  | cons c rest ih => rw [List.cons_append, splitLast, ih]

namespace DeclaredName

/-- A simple name is not empty, and there is no dot in it. -/
def IsSimple (s : String) : Prop := s ≠ "" ∧ '.' ∉ s.toList

/-- Something stands behind the last dot of the text, or there is no dot and the text is not
empty. -/
def EndsInName (text : String) : Prop :=
  ∃ simple, IsSimple simple ∧ (text = simple ∨ ∃ package : String, text = s!"{package}.{simple}")

theorem toList_dotted (package simple : String) :
    (s!"{package}.{simple}").toList = package.toList ++ '.' :: simple.toList := by
  simp [String.toList_append, toString]

theorem make_eq_ok_iff {package simple : String} {n : DeclaredName} :
    make package simple = .ok n ↔ simple ≠ "" ∧ n = ⟨package, simple⟩ := by
  unfold make
  split
  · simp [*]
  · simp [*, eq_comm]

theorem ofQualified_simple {s : String} (h : IsSimple s) : ofQualified s = .ok ⟨"", s⟩ := by
  unfold ofQualified Text.splitLastDot
  rw [Text.splitLast_eq_none_iff.mpr h.2]
  exact make_eq_ok_iff.mpr ⟨h.1, rfl⟩

theorem ofQualified_dotted {simple : String} (h : IsSimple simple) (package : String) :
    ofQualified s!"{package}.{simple}" = .ok ⟨package, simple⟩ := by
  unfold ofQualified Text.splitLastDot
  rw [toList_dotted, Text.splitLast_append h.2]
  simp only [Option.map_some, String.ofList_toList]
  exact make_eq_ok_iff.mpr ⟨h.1, rfl⟩

/-- **What a text is read as**, and which texts are read as a name. -/
theorem ofQualified_eq_ok_iff {text : String} {n : DeclaredName} :
    ofQualified text = .ok n ↔
      IsSimple n.simple
        ∧ (text = s!"{n.package}.{n.simple}" ∨ n.package = "" ∧ text = n.simple) := by
  refine ⟨fun h => ?_, ?_⟩
  · unfold ofQualified Text.splitLastDot at h
    cases hs : Text.splitLast '.' text.toList with
    | none =>
        rw [hs] at h
        obtain ⟨hne, rfl⟩ := make_eq_ok_iff.mp h
        exact ⟨⟨hne, Text.splitLast_eq_none_iff.mp hs⟩, Or.inr ⟨rfl, rfl⟩⟩
    | some parts =>
        obtain ⟨before, after⟩ := parts
        rw [hs] at h
        obtain ⟨hne, rfl⟩ := make_eq_ok_iff.mp h
        have hafter : '.' ∉ (String.ofList after).toList := by
          rw [String.toList_ofList]
          exact Text.not_mem_after_splitLast hs
        refine ⟨⟨hne, hafter⟩, Or.inl (String.toList_inj.mp ?_)⟩
        rw [toList_dotted, String.toList_ofList, String.toList_ofList]
        exact Text.splitLast_eq_append hs
  · rintro ⟨hsimple, rfl | ⟨hpackage, rfl⟩⟩
    · exact ofQualified_dotted hsimple n.package
    · rw [ofQualified_simple hsimple, ← hpackage]

theorem exists_ofQualified_iff {text : String} :
    (∃ n, ofQualified text = .ok n) ↔ EndsInName text := by
  simp only [ofQualified_eq_ok_iff]
  refine ⟨?_, ?_⟩
  · rintro ⟨n, hsimple, htext | ⟨-, htext⟩⟩
    · exact ⟨n.simple, hsimple, Or.inr ⟨n.package, htext⟩⟩
    · exact ⟨n.simple, hsimple, Or.inl htext⟩
  · rintro ⟨simple, hsimple, htext | ⟨package, htext⟩⟩
    · exact ⟨⟨"", simple⟩, hsimple, Or.inr ⟨rfl, htext⟩⟩
    · exact ⟨⟨package, simple⟩, hsimple, Or.inl htext⟩

theorem isSimple_of_ofQualified {text : String} {n : DeclaredName}
    (h : ofQualified text = .ok n) : IsSimple n.simple :=
  (ofQualified_eq_ok_iff.mp h).1

/-! ## Names that are written in full -/

theorem qualified_eq_dotted {n : DeclaredName} (h : n.package ≠ "") :
    n.qualified = s!"{n.package}.{n.simple}" := if_neg h

/-- A type of the default package has no spelling but its simple name. -/
theorem qualified_of_default {n : DeclaredName} (h : n.package = "") : n.qualified = n.simple :=
  if_pos h

theorem qualified_ne_simple {n : DeclaredName} (h : n.package ≠ "") : n.qualified ≠ n.simple := by
  intro he
  rw [qualified_eq_dotted h] at he
  have hlength := congrArg String.length he
  simp [String.length_append, toString] at hlength

/-- **A name that is written in full is read back.** -/
theorem ofQualified_qualified {n : DeclaredName} (h : IsSimple n.simple) :
    ofQualified n.qualified = .ok n := by
  by_cases hp : n.package = ""
  · rw [qualified_of_default hp, ofQualified_simple h, ← hp]
  · rw [qualified_eq_dotted hp, ofQualified_dotted h]

/-- For a type of a package there is one text that is read as it. -/
theorem ofQualified_eq_ok_iff_of_package {text : String} {n : DeclaredName} (hp : n.package ≠ "")
    (hsimple : IsSimple n.simple) : ofQualified text = .ok n ↔ text = n.qualified := by
  rw [ofQualified_eq_ok_iff, and_iff_right hsimple, or_iff_left fun h => hp h.1,
    qualified_eq_dotted hp]

end DeclaredName

end TraitWeaver
