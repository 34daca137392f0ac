import TraitWeaver.Artifact.Superclass
import TraitWeaver.Proofs.HostResolution
import TraitWeaver.Proofs.Shortening

/-!
# The name that a file declares

A file gives its own type a simple name, too. The table of the file does not know
about it unless the file also *mentions* the type, for only what is mentioned is
made known. So another type can own the simple name that the file declares, and a
reader takes the one for the other.

The condition is exact. A file that mentions its own type is safe. The superclass of
a host that wants to extend a class of the same simple name is not: it imports that
class, and then seems to extend itself.
-/

namespace TraitWeaver

theorem DeclaredName.package_of_isPrimitive {n : DeclaredName} (h : n.isPrimitive = true) :
    n.package = "" := by
  unfold isPrimitive at h
  rw [Bool.and_eq_true] at h
  exact of_decide_eq_true h.1

namespace CompilationUnit

/-- Another type is imported or written under the simple name that the file declares. -/
def Confuses (u : CompilationUnit) : Prop :=
  ∃ n : DeclaredName, n ≠ u.name ∧ n.simple = u.name.simple ∧
    (n ∈ u.names.imports ∨ n ∈ u.written ∧ u.names.spellName n = u.name.simple)

section

variable {u : CompilationUnit} {n : DeclaredName}

/-! ## Who owns the name -/

theorem mem_mentions_of_owner? {s : String} (h : u.names.owner? s = some n) : n ∈ u.mentions :=
  ((NameTable.owner?_ofTypes_eq_some_iff u.increasing_mentions).mp h).2.1

/-- A type that the file declares and mentions owns its simple name. -/
theorem owner?_of_mem_mentions (h : u.name ∈ u.mentions) :
    u.names.owner? u.name.simple = some u.name := by
  unfold names
  rw [NameTable.owner?_ofTypes]
  exact if_pos h

/-- If the file does not mention its type, the name goes to the language package first. -/
theorem owner?_of_language (hown : u.name ∉ u.mentions)
    (h : ⟨languagePackage, u.name.simple⟩ ∈ u.mentions) :
    u.names.owner? u.name.simple = some ⟨languagePackage, u.name.simple⟩ := by
  unfold names
  rw [NameTable.owner?_ofTypes]
  exact (if_neg hown).trans (if_pos h)

theorem name_not_mem_mentions (h : u.names.owner? u.name.simple = some n) (hne : n ≠ u.name) :
    u.name ∉ u.mentions := by
  intro hm
  rw [owner?_of_mem_mentions hm] at h
  exact hne (Option.some.inj h).symm

/-- What owns the name and is foreign leaves the language package no claim to it. -/
theorem language_not_mem_mentions (h : u.names.owner? u.name.simple = some n) (hne : n ≠ u.name)
    (hlang : n.package ≠ languagePackage) : ⟨languagePackage, u.name.simple⟩ ∉ u.mentions := by
  intro hm
  rw [owner?_of_language (name_not_mem_mentions h hne) hm] at h
  exact hlang (by rw [← Option.some.inj h])

/-! ## Confusion -/

/-- A written type of a package with a name is mentioned, or it is the root. -/
theorem mem_mentions_or_eq_root (hn : n ∈ u.written) (hpackage : n.package ≠ "") :
    n ∈ u.mentions ∨ n = .root := by
  by_cases hi : n.isImportable = true
  · exact Or.inl (mem_mentions_of_mem_written hn hi)
  · rcases DeclaredName.eq_root_or_isPrimitive hi with hr | hprimitive
    · exact Or.inr hr
    · exact absurd (DeclaredName.package_of_isPrimitive hprimitive) hpackage

/-- A written type with the simple name of the file's own is of a package with a name. -/
theorem package_ne_empty_of_mem_written
    (hp : ∀ m ∈ u.mentions, m.package ≠ "" ∨ m.package = u.package)
    (hprimitive : DeclaredName.isPrimitive ⟨"", u.name.simple⟩ = false) (hn : n ∈ u.written)
    (hne : n ≠ u.name) (hs : n.simple = u.name.simple) : n.package ≠ "" := by
  intro hpackage
  by_cases hi : n.isImportable = true
  · rcases hp n (mem_mentions_of_mem_written hn hi) with h | h
    · exact h hpackage
    · refine hne ?_
      show n = ⟨u.package, u.name.simple⟩
      rw [← h, ← hs]
  · rcases DeclaredName.eq_root_or_isPrimitive hi with hr | hpr
    · rw [hr] at hpackage
      exact absurd hpackage (by decide)
    · rw [← hs, ← hpackage] at hprimitive
      rw [hprimitive] at hpr
      exact Bool.false_ne_true hpr

/-- **A foreign type that takes the name that the file declares is imported.** -/
theorem confuses_of_mem_mentions (hp : ∀ m ∈ u.mentions, m.package ≠ "" ∨ m.package = u.package)
    (hown : u.name ∉ u.mentions) (hn : n ∈ u.mentions) (hs : n.simple = u.name.simple)
    (hlang : ⟨languagePackage, n.simple⟩ ∉ u.mentions) : u.Confuses := by
  cases ho : u.names.owner? n.simple with
  | none => exact absurd rfl (NameTable.owner?_ofTypes_eq_none_iff.mp ho n hn)
  | some o =>
      have hom := mem_mentions_of_owner? ho
      have hos := NameTable.simple_of_owner? ho
      have hne : o ≠ u.name := fun he => hown (he ▸ hom)
      have hpackage : o.package ≠ u.package := by
        intro h
        refine hne ?_
        show o = ⟨u.package, u.name.simple⟩
        rw [← h, ← hs, ← hos]
      have hlanguage : o.package ≠ languagePackage := by
        intro h
        rw [← h, ← hos] at hlang
        exact hlang hom
      refine ⟨o, hne, hos.trans hs, Or.inl (NameTable.mem_imports_iff.mpr ⟨by rwa [hos], ?_⟩)⟩
      exact NameTable.seesPackage_eq_false_iff.mpr
        ⟨hlanguage, (hp o hom).resolve_right hpackage, by rwa [names, NameTable.package_ofTypes]⟩

/-- A written type of the language package takes the name too, but needs no import. -/
theorem confuses_of_mem_written (hp : ∀ m ∈ u.mentions, m.package ≠ "" ∨ m.package = u.package)
    (hown : u.name ∉ u.mentions) (hne : n ≠ u.name) (hn : n ∈ u.written)
    (hs : n.simple = u.name.simple) (hlang : n.package = languagePackage) : u.Confuses := by
  have he : n = ⟨languagePackage, u.name.simple⟩ := by rw [← hlang, ← hs]
  have hshort : u.names.isShort n = true → u.Confuses := fun h =>
    ⟨n, hne, hs, Or.inr ⟨hn, (NameTable.spellName_eq_simple_iff.mpr (Or.inl h)).trans hs⟩⟩
  cases ho : u.names.owner? u.name.simple with
  | none =>
      -- nobody owns the name, and the language package is visible
      refine hshort (NameTable.isShort_iff.mpr (Or.inr ⟨by rwa [hs], ?_⟩))
      simp [NameTable.seesPackage, hlang]
  | some o =>
      by_cases hm : n ∈ u.mentions
      · refine hshort (NameTable.isShort_iff.mpr (Or.inl ?_))
        rw [he] at hm ⊢
        exact owner?_of_language hown hm
      · -- it is the root, and the name is another's
        have hos := NameTable.simple_of_owner? ho
        exact confuses_of_mem_mentions hp hown (mem_mentions_of_owner? ho) hos
          (by rwa [hos, ← he])

end

/--
**When a file confuses its own type with another.**

Exactly if it does not mention its own type, and mentions another type with the
same simple name. One of the language package also has to be written, for it needs
no import; the root of the hierarchy is never mentioned, and counts if it is
written.
-/
theorem confuses_iff (u : CompilationUnit)
    (hp : ∀ n ∈ u.mentions, n.package ≠ "" ∨ n.package = u.package)
    (hprimitive : DeclaredName.isPrimitive ⟨"", u.name.simple⟩ = false) :
    u.Confuses ↔ u.name ∉ u.mentions ∧ ∃ n : DeclaredName, n ≠ u.name ∧ n.simple = u.name.simple ∧
      (n ∈ u.mentions ∧ ⟨languagePackage, n.simple⟩ ∉ u.mentions
        ∨ n ∈ u.written ∧ n.package = languagePackage) := by
  refine ⟨?_, ?_⟩
  · rintro ⟨n, hne, hs, himport | ⟨hn, hspell⟩⟩
    · obtain ⟨ho, hsees⟩ := NameTable.mem_imports_iff.mp himport
      have hlang := (NameTable.seesPackage_eq_false_iff.mp hsees).1
      rw [hs] at ho
      refine ⟨name_not_mem_mentions ho hne, n, hne, hs, Or.inl ⟨mem_mentions_of_owner? ho, ?_⟩⟩
      rw [hs]
      exact language_not_mem_mentions ho hne hlang
    · have hpackage := package_ne_empty_of_mem_written hp hprimitive hn hne hs
      rw [← hs] at hspell
      have hshort := (NameTable.spellName_eq_simple_iff.mp hspell).resolve_right hpackage
      rcases NameTable.isShort_iff.mp hshort with ho | ⟨hnone, -⟩
      · rw [hs] at ho
        refine ⟨name_not_mem_mentions ho hne, n, hne, hs, ?_⟩
        by_cases hlang : n.package = languagePackage
        · exact Or.inr ⟨hn, hlang⟩
        · refine Or.inl ⟨mem_mentions_of_owner? ho, ?_⟩
          rw [hs]
          exact language_not_mem_mentions ho hne hlang
      · -- nobody owns the name, so the type that is written is the root
        have hfree := NameTable.owner?_ofTypes_eq_none_iff.mp hnone
        have hroot : n = .root :=
          (mem_mentions_or_eq_root hn hpackage).resolve_left fun hm => hfree n hm rfl
        refine ⟨fun hm => hfree u.name hm hs.symm, n, hne, hs, Or.inr ⟨hn, ?_⟩⟩
        rw [hroot]
        rfl
  · rintro ⟨hown, n, hne, hs, ⟨hn, hlang⟩ | ⟨hn, hlang⟩⟩
    · exact confuses_of_mem_mentions hp hown hn hs hlang
    · exact confuses_of_mem_written hp hown hne hn hs hlang

end CompilationUnit

/-! ## A person -/

/-- A trait without methods. -/
def Trait.greeter : Trait :=
  { type := .plain ⟨"lib", "Greeter"⟩
    qualifier := "Greeter"
    typeParams := []
    methods := []
    constants := []
    interfaces := [] }

/-- A class that wants to extend a class with the simple name of its own generated superclass. -/
def HostDecl.person : HostDecl :=
  { name := "app.Person"
    traits := ["lib.Greeter"]
    superclass := some ⟨"lib.AbstractPerson", [], []⟩
    preferences := [] }

def Host.person : Host :=
  { name := ⟨"app", "Person"⟩
    traits := [.greeter]
    superclass := some ⟨⟨"lib", "AbstractPerson"⟩, [], []⟩
    preferences := .empty }

theorem HostDecl.resolve_person :
    (HostDecl.person.resolve (TraitIndex.ofList [.greeter])).1 = .ok Host.person :=
  toOption_eq_some_iff.mp (by decide +kernel)

namespace CompilationUnit

theorem confuses_iff_person :
    (∀ n ∈ (Host.person.superclassFile .default).mentions,
        n.package ≠ "" ∨ n.package = (Host.person.superclassFile .default).package)
      ∧ DeclaredName.isPrimitive ⟨"", (Host.person.superclassFile .default).name.simple⟩ = false
      ∧ (Host.person.superclassFile .default).Confuses := by
  have hp : ∀ n ∈ (Host.person.superclassFile .default).mentions,
      n.package ≠ "" ∨ n.package = (Host.person.superclassFile .default).package := by
    decide +kernel
  have hprimitive : DeclaredName.isPrimitive
      ⟨"", (Host.person.superclassFile .default).name.simple⟩ = false := by
    decide +kernel
  refine ⟨hp, hprimitive, (confuses_iff _ hp hprimitive).mpr ?_⟩
  exact ⟨by decide +kernel, ⟨"lib", "AbstractPerson"⟩, by decide +kernel, by decide +kernel,
    Or.inl (by decide +kernel)⟩

/-- The superclass of a person extends itself, as far as its reader can tell. -/
theorem not_forall_superclassFile_not_confuses :
    (¬∀ (index : TraitIndex) (d : HostDecl) (h : Host) (c : Config),
        (d.resolve index).1 = .ok h → ¬(h.superclassFile c).Confuses)
      ∧ (Host.person.superclassFile { Config.default with emitComment := false }).render.toOption =
        some (String.join
          ["package app;\n\n",
            "import lib.AbstractPerson;\n",
            "import lib.GreeterDelegate;\n",
            "import lib.GreeterTrait;\n\n",
            "public abstract class AbstractPerson extends AbstractPerson implements GreeterTrait ",
            "\x7b\n",
            "    private final GreeterDelegate greeterDelegate = new GreeterDelegate(this);\n",
            "\x7d\n"]) := by
  refine ⟨fun hall => ?_, by decide +kernel⟩
  refine hall _ _ _ .default HostDecl.resolve_person ?_
  exact ⟨⟨"lib", "AbstractPerson"⟩, by decide +kernel, by decide +kernel,
    Or.inl (by decide +kernel)⟩

end CompilationUnit

end TraitWeaver
