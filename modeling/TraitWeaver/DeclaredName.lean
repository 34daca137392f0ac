import TraitWeaver.Text

/-!
# Names of declared types

A declared type is known by the package it lives in and by its simple name. The names with a
meaning of their own are here too: the root of the class hierarchy, the primitives and `void`.
-/

namespace TraitWeaver

/-- Why a type, or a use of one, is refused. -/
inductive TypeError where
  /-- A type name or variable name is empty. -/
  | emptyName
  /-- The variable already has a qualifier. -/
  | alreadyQualified (name qualifier : String)
  /-- A wildcard never has a qualifier. -/
  | qualifiedWildcard
  /-- An intersection stands where a single type is wanted. -/
  | unexpectedIntersection
  /-- The name means nothing in this position. -/
  | unresolvable (name : String)
deriving DecidableEq, Repr

def TypeError.message : TypeError → String
  | emptyName => "type name must not be empty"
  | alreadyQualified name qualifier =>
    s!"generic parameter '{name}' is already qualified by '{qualifier}'"
  | qualifiedWildcard => "a wildcard cannot be qualified"
  | unexpectedIntersection => "intersection type is only allowed as a type variable bound"
  | unresolvable name => s!"'{name}' cannot be used here"

/-- The name of a declared type: its package (empty for the default one) and its simple name. -/
structure DeclaredName where
  package : String
  simple : String
deriving DecidableEq, Repr

/-- The package whose types are visible everywhere without an import. -/
def languagePackage : String := "java.lang"

namespace DeclaredName

/-- A simple name must not be empty. -/
def make (package simple : String) : Except TypeError DeclaredName :=
  if simple = "" then .error .emptyName else .ok ⟨package, simple⟩

/-- Reads a qualified name: the package is what stands before the last dot, and a name without a
dot is in the default package. -/
def ofQualified (name : String) : Except TypeError DeclaredName :=
  match Text.splitLastDot name with
  | some (package, simple) => make package simple
  | none => make "" name

def qualified (n : DeclaredName) : String :=
  if n.package = "" then n.simple else s!"{n.package}.{n.simple}"

/-- The root of the class hierarchy. -/
def root : DeclaredName := ⟨languagePackage, "Object"⟩

/-- The annotation on a method that overrides another. -/
def override : DeclaredName := ⟨languagePackage, "Override"⟩

/-- The type of a method that returns nothing. -/
def void : DeclaredName := ⟨"", "void"⟩

/-- The simple names of the primitive types. -/
def primitiveNames : List String :=
  ["boolean", "byte", "char", "short", "int", "long", "float", "double"]

/-- The primitives, `void` among them, live in the default package. -/
def isPrimitive (n : DeclaredName) : Bool :=
  n.package = "" && (n.simple = "void" || primitiveNames.contains n.simple)

/-- A file may have to import the type: neither the root, which is always written without one, nor
a primitive. -/
def isImportable (n : DeclaredName) : Bool := n != root && !n.isPrimitive

theorem isImportable_iff {n : DeclaredName} :
    n.isImportable = true ↔ n ≠ root ∧ ¬n.isPrimitive = true := by
  unfold isImportable
  simp

/-- What no file ever has to import. -/
theorem eq_root_or_isPrimitive {n : DeclaredName} (h : n.isImportable ≠ true) :
    n = root ∨ n.isPrimitive = true := by
  by_cases hr : n = root
  · exact Or.inl hr
  · exact Or.inr (Decidable.byContradiction fun hp => h (isImportable_iff.mpr ⟨hr, hp⟩))

/-- By package, then by simple name, both by code point. -/
def compare (a b : DeclaredName) : Ordering :=
  (Ord.compare a.package b.package).then (Ord.compare a.simple b.simple)

instance : Ord DeclaredName := ⟨DeclaredName.compare⟩

/-- Puts a name into an increasing list that does not hold it yet. -/
def insertSorted (n : DeclaredName) : List DeclaredName → List DeclaredName
  | [] => [n]
  | m :: rest =>
    match n.compare m with
    | .lt => n :: m :: rest
    | .eq => m :: rest
    | .gt => m :: insertSorted n rest

/-- The names of a list in increasing order, each once. -/
def sortedSet (names : List DeclaredName) : List DeclaredName :=
  names.foldr insertSorted []

end DeclaredName

end TraitWeaver
