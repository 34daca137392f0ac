import TraitWeaver.Config
import TraitWeaver.Proofs.Outcome

/-!
# Identifiers from valid options

The options are put before or behind the names of declarations, and a number is put
behind one of them. What comes out is to be an identifier again, whatever letters and
digits of whatever script the names are made of.

It depends on where an option ends up. Behind a name any character of an identifier
will do; before one, or before a number, its first character becomes the first of all.
So the two ways of checking an option are the two ways of using it, and everything
follows from one law: an identifier goes on as one exactly as long as its characters
may stand in one (`isIdentifier_append_iff`).

Valid options could not be fewer either: options that are not empty are valid exactly
if all names that are made with them are identifiers and tell interfaces from
delegates.
-/

namespace TraitWeaver

/-! ## Identifiers -/

namespace Text

/-- A letter or sign that an identifier may begin with. -/
def Begins (c : Char) : Prop := isAlphabetic c = true ∨ c = '_' ∨ c = '$'

/-- A letter, number or sign that an identifier may go on with. -/
def Continues (c : Char) : Prop :=
  isAlphabetic c = true ∨ isNumeric c = true ∨ c = '_' ∨ c = '$'

/-- The text has a first character that an identifier may begin with, and others that it may go on
with. -/
def IsIdentifier (s : String) : Prop :=
  ∃ first rest, s.toList = first :: rest ∧ Begins first ∧ ∀ c ∈ rest, Continues c

/-- The text is not empty, and each of its characters may stand in an identifier. -/
def IsFragment (s : String) : Prop := s ≠ "" ∧ ∀ c ∈ s.toList, Continues c

variable {c : Char} {s t : String}

theorem Begins.continues (h : Begins c) : Continues c := h.imp_right Or.inr

theorem isIdentifierStart_iff : isIdentifierStart c = true ↔ Begins c := by
  simp only [isIdentifierStart, Begins, Bool.or_eq_true, decide_eq_true_eq, or_assoc]

theorem isIdentifierPart_iff : isIdentifierPart c = true ↔ Continues c := by
  simp only [isIdentifierPart, Continues, Bool.or_eq_true, decide_eq_true_eq, or_assoc]

theorem isIdentifier_iff : isIdentifier s = true ↔ IsIdentifier s := by
  unfold isIdentifier IsIdentifier
  cases s.toList with
  | nil => simp
  | cons first rest =>
      simp only [Bool.and_eq_true, List.all_eq_true, isIdentifierStart_iff, isIdentifierPart_iff,
        List.cons.injEq]
      refine ⟨fun h => ⟨first, rest, ⟨rfl, rfl⟩, h⟩, ?_⟩
      rintro ⟨_, _, ⟨rfl, rfl⟩, h⟩
      exact h

theorem isIdentifierTail_iff : isIdentifierTail s = true ↔ IsFragment s := by
  simp only [isIdentifierTail, IsFragment, Bool.and_eq_true, List.all_eq_true,
    isIdentifierPart_iff, Bool.not_eq_true', List.isEmpty_eq_false_iff, ne_eq,
    String.toList_eq_nil_iff]

theorem IsIdentifier.ne_empty (h : IsIdentifier s) : s ≠ "" := by
  rintro rfl
  obtain ⟨first, rest, hchars, -⟩ := h
  cases hchars

theorem IsIdentifier.continues (h : IsIdentifier s) : ∀ c ∈ s.toList, Continues c := by
  obtain ⟨first, rest, hchars, hfirst, hrest⟩ := h
  rw [hchars]
  exact List.forall_mem_cons.mpr ⟨hfirst.continues, hrest⟩

theorem IsIdentifier.isFragment (h : IsIdentifier s) : IsFragment s := ⟨h.ne_empty, h.continues⟩

/-- **What may follow an identifier**, or any text that is put before another: nothing but
characters of identifiers. -/
theorem isIdentifier_append_iff (hs : s ≠ "") :
    IsIdentifier (s ++ t) ↔ IsIdentifier s ∧ ∀ c ∈ t.toList, Continues c := by
  unfold IsIdentifier
  rw [String.toList_append]
  cases hchars : s.toList with
  | nil => exact absurd (String.toList_eq_nil_iff.mp hchars) hs
  | cons first rest =>
      simp only [List.cons_append, List.cons.injEq]
      refine ⟨?_, ?_⟩
      · rintro ⟨_, _, ⟨rfl, rfl⟩, hfirst, hall⟩
        obtain ⟨hrest, ht⟩ := List.forall_mem_append.mp hall
        exact ⟨⟨first, rest, ⟨rfl, rfl⟩, hfirst, hrest⟩, ht⟩
      · rintro ⟨⟨_, _, ⟨rfl, rfl⟩, hfirst, hrest⟩, ht⟩
        exact ⟨first, rest ++ t.toList, ⟨rfl, rfl⟩, hfirst, List.forall_mem_append.mpr ⟨hrest, ht⟩⟩

/-- A number is written in digits, each of which may stand in an identifier. -/
theorem continues_of_mem_toString {n : Nat} (h : c ∈ (toString n).toList) : Continues c := by
  have hmem : c ∈ Nat.toDigits 10 n := by simpa [toString, Nat.repr] using h
  have hdigit := Nat.isDigit_of_mem_toDigits (by decide) (by decide) hmem
  -- the digits are the first of the numeric ranges
  refine Or.inr (Or.inl (List.any_eq_true.mpr ⟨(0x30, 0x39), List.mem_cons_self, ?_⟩))
  simp only [Char.isDigit, Bool.and_eq_true, decide_eq_true_eq, UInt32.le_iff_toNat_le] at hdigit
  simp only [Bool.and_eq_true, decide_eq_true_eq]
  exact hdigit

end Text

/-! ## Options -/

namespace Config

open Text

theorem check_eq_ok_iff {option : NameOption} {value : String} {isValid : String → Bool} :
    check option value isValid = .ok () ↔ value ≠ "" ∧ isValid value = true := by
  unfold check
  split
  · simp [*]
  · split <;> simp [*]

theorem check_tail_eq_ok_iff {option : NameOption} {value : String} :
    check option value isIdentifierTail = .ok () ↔ IsFragment value := by
  rw [check_eq_ok_iff, isIdentifierTail_iff]
  exact and_iff_right_of_imp (·.1)

theorem check_identifier_eq_ok_iff {option : NameOption} {value : String} :
    check option value isIdentifier = .ok () ↔ IsIdentifier value := by
  rw [check_eq_ok_iff, isIdentifier_iff]
  exact and_iff_right_of_imp (·.ne_empty)

/-- What stands behind a name can stand there, what stands before one can begin one, and the two
files of a trait are told apart. -/
structure IsValid (c : Config) : Prop where
  interfaceSuffix : IsFragment c.interfaceSuffix
  delegateSuffix : IsFragment c.delegateSuffix
  superclassPrefix : IsIdentifier c.superclassPrefix
  aliasPrefix : IsIdentifier c.aliasPrefix
  autoParameterPrefix : IsIdentifier c.autoParameterPrefix
  suffixes_ne : c.interfaceSuffix ≠ c.delegateSuffix

/-- **The options go through exactly if they are valid.** -/
theorem validate_eq_ok_iff {c : Config} : c.validate = .ok () ↔ c.IsValid := by
  unfold validate
  simp only [bind_eq_ok]
  refine ⟨?_, fun h => ?_⟩
  · rintro ⟨⟨⟩, hinterface, ⟨⟩, hdelegate, ⟨⟩, hsuperclass, ⟨⟩, halias, ⟨⟩, hauto, hlast⟩
    refine ⟨check_tail_eq_ok_iff.mp hinterface, check_tail_eq_ok_iff.mp hdelegate,
      check_identifier_eq_ok_iff.mp hsuperclass, check_identifier_eq_ok_iff.mp halias,
      check_identifier_eq_ok_iff.mp hauto, fun he => ?_⟩
    rw [if_pos he] at hlast
    cases hlast
  · refine ⟨(), check_tail_eq_ok_iff.mpr h.interfaceSuffix,
      (), check_tail_eq_ok_iff.mpr h.delegateSuffix,
      (), check_identifier_eq_ok_iff.mpr h.superclassPrefix,
      (), check_identifier_eq_ok_iff.mpr h.aliasPrefix,
      (), check_identifier_eq_ok_iff.mpr h.autoParameterPrefix, ?_⟩
    rw [if_neg h.suffixes_ne]
    rfl

/-- No text that is put before or behind a name is empty. -/
def NoneEmpty (c : Config) : Prop :=
  c.interfaceSuffix ≠ "" ∧ c.delegateSuffix ≠ "" ∧ c.superclassPrefix ≠ "" ∧ c.aliasPrefix ≠ ""

/-- All names that are made with the options are identifiers, and no trait has an interface and a
delegate of one name. -/
structure MakesIdentifiers (c : Config) : Prop where
  interface : ∀ s, IsIdentifier s → IsIdentifier (c.interfaceOf s)
  delegate : ∀ s, IsIdentifier s → IsIdentifier (c.delegateOf s)
  superclass : ∀ s, IsIdentifier s → IsIdentifier (c.superclassOf s)
  ofAlias : ∀ s, IsIdentifier s → IsIdentifier (c.aliasOf s)
  autoParameter : ∀ n, IsIdentifier (c.autoParameterName n)
  interface_ne_delegate : ∀ s, IsIdentifier s → c.interfaceOf s ≠ c.delegateOf s

theorem IsValid.noneEmpty {c : Config} (h : c.IsValid) : c.NoneEmpty :=
  ⟨h.interfaceSuffix.1, h.delegateSuffix.1, h.superclassPrefix.ne_empty, h.aliasPrefix.ne_empty⟩

theorem isIdentifier_autoParameterName_iff {c : Config} (h : c.autoParameterPrefix ≠ "") {n : Nat} :
    IsIdentifier (c.autoParameterName n) ↔ IsIdentifier c.autoParameterPrefix := by
  have hname : c.autoParameterName n = c.autoParameterPrefix ++ toString n := by
    unfold autoParameterName
    simp [toString]
  rw [hname, isIdentifier_append_iff h]
  exact and_iff_left fun _ => continues_of_mem_toString

/-- **Names that are made with valid options are identifiers.** -/
theorem IsValid.makesIdentifiers {c : Config} (h : c.IsValid) : c.MakesIdentifiers where
  interface _ hs := (isIdentifier_append_iff hs.ne_empty).mpr ⟨hs, h.interfaceSuffix.2⟩
  delegate _ hs := (isIdentifier_append_iff hs.ne_empty).mpr ⟨hs, h.delegateSuffix.2⟩
  superclass _ hs :=
    (isIdentifier_append_iff h.superclassPrefix.ne_empty).mpr ⟨h.superclassPrefix, hs.continues⟩
  ofAlias _ hs := (isIdentifier_append_iff h.aliasPrefix.ne_empty).mpr ⟨h.aliasPrefix, hs.continues⟩
  autoParameter _ :=
    (isIdentifier_autoParameterName_iff h.autoParameterPrefix.ne_empty).mpr h.autoParameterPrefix
  interface_ne_delegate s _ he := h.suffixes_ne ((String.append_right_inj s).mp he)

/-- There is an identifier to try the options on. -/
theorem isIdentifier_dollar : IsIdentifier "$" :=
  ⟨'$', [], rfl, Or.inr (Or.inr rfl), fun _ hc => absurd hc List.not_mem_nil⟩

/-- **Options with which all names are identifiers are valid**, unless one is empty. -/
theorem MakesIdentifiers.isValid {c : Config} (h : c.MakesIdentifiers) (hne : c.NoneEmpty) :
    c.IsValid := by
  obtain ⟨hinterface, hdelegate, hsuperclass, halias⟩ := hne
  have hs := isIdentifier_dollar
  have hparameter : c.autoParameterPrefix ≠ "" := by
    intro he
    obtain ⟨first, rest, hchars, hfirst, -⟩ := h.autoParameter 0
    have hzero : c.autoParameterName 0 = "0" := by
      unfold autoParameterName
      rw [he]
      rfl
    rw [hzero] at hchars
    obtain rfl : '0' = first := (List.cons.inj hchars).1
    revert hfirst
    unfold Begins
    decide +kernel
  exact
    { interfaceSuffix := ⟨hinterface,
        ((isIdentifier_append_iff hs.ne_empty).mp (h.interface _ hs)).2⟩
      delegateSuffix := ⟨hdelegate, ((isIdentifier_append_iff hs.ne_empty).mp (h.delegate _ hs)).2⟩
      superclassPrefix := ((isIdentifier_append_iff hsuperclass).mp (h.superclass _ hs)).1
      aliasPrefix := ((isIdentifier_append_iff halias).mp (h.ofAlias _ hs)).1
      autoParameterPrefix := (isIdentifier_autoParameterName_iff hparameter).mp (h.autoParameter 0)
      suffixes_ne := fun he => h.interface_ne_delegate _ hs (congrArg ("$" ++ ·) he) }

/--
**Valid options make identifiers, and only they do.** Options go through exactly if what
stands behind a name may continue it and what stands before one may begin it. The names
that are made with them are identifiers then, for all declarations and positions. They
are for no other options, if none is empty.
-/
theorem validate_iff_makesIdentifiers (c : Config) :
    (c.validate = .ok () ↔ c.IsValid)
      ∧ (c.validate = .ok () ↔ c.NoneEmpty ∧ c.MakesIdentifiers) := by
  refine ⟨validate_eq_ok_iff, validate_eq_ok_iff.trans ⟨fun h => ?_, fun h => ?_⟩⟩
  · exact ⟨h.noneEmpty, h.makesIdentifiers⟩
  · exact h.2.isValid h.1

end Config

end TraitWeaver
