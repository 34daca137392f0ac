import TraitWeaver.Proofs.Coverage
import TraitWeaver.Proofs.Importable
import TraitWeaver.Proofs.NameReading

/-!
# What a spelled name stands for

A reader of a file meets simple names and has to know which types they mean. He
looks at the imports first, then into the package of the file, then into the
language package. `NameTable.Shortens` says that he finds the right type each
time, and which types are spelled so that he has to look at all.

Types of the default package are the exception. In a file of another package they
have no spelling but their simple names, so one is hidden as soon as another type
owns the name. That this is the only way in which two types are ever spelled alike
is proved by reading a spelling back as a qualified name.
-/

namespace TraitWeaver

/-- The empty text comes before every other one. -/
theorem Text.compare_empty {s : String} (h : s ≠ "") : Ord.compare s "" = .gt := by
  show compareOfLessAndEq s "" = .gt
  unfold compareOfLessAndEq
  rw [if_neg, if_neg h]
  rw [String.lt_iff_toList_lt]
  exact List.not_lt_nil _

namespace NameTable

/-! ## Short and long spellings -/

theorem spellName_eq_simple_iff {r : NameTable} {n : DeclaredName} :
    r.spellName n = n.simple ↔ r.isShort n = true ∨ n.package = "" := by
  unfold spellName
  split
  · rename_i hs
    exact iff_of_true rfl (Or.inl hs)
  · rename_i hs
    refine ⟨fun he => Or.inr ?_, ?_⟩
    · by_contra hp
      exact DeclaredName.qualified_ne_simple hp he
    · rintro (h | h)
      · exact absurd h hs
      · exact DeclaredName.qualified_of_default h

theorem spellName_eq_simple_or_qualified (r : NameTable) (n : DeclaredName) :
    r.spellName n = n.simple ∨ r.spellName n = n.qualified := by
  unfold spellName
  split
  · exact Or.inl rfl
  · exact Or.inr rfl

variable {package : String} {types : List DeclaredName}

/-- Where the default package plays no part, a type of the file is spelled by its simple name
exactly if it owns it. -/
theorem spellName_ofTypes_eq_simple_iff (h : DeclaredName.Increasing types) {n : DeclaredName}
    (hn : n ∈ types) (hp : n.package ≠ "" ∨ n.package = package) :
    (ofTypes package types).spellName n = n.simple ↔ n.OwnsName package types := by
  rw [spellName_eq_simple_iff, isShort_ofTypes_iff h hn]
  refine ⟨?_, Or.inl⟩
  rintro (ho | hdefault)
  · exact ho
  · exact ⟨hn, Or.inl (hp.resolve_left (· hdefault))⟩

/-- **The root is spelled in full exactly if a type of the file has its simple name.** -/
theorem spellName_root_ofTypes (h : DeclaredName.root ∉ types) :
    (ofTypes package types).spellName .root = DeclaredName.root.qualified ↔
      ∃ n ∈ types, n.simple = DeclaredName.root.simple := by
  have howner : (ofTypes package types).owner? DeclaredName.root.simple ≠ some .root := by
    intro ho
    rw [owner?_ofTypes] at ho
    split at ho
    · rename_i hm
      rw [Option.some.inj ho] at hm
      exact h hm
    · split at ho
      · rename_i hm
        exact h hm
      · exact h (List.mem_of_find?_eq_some ho)
  have hshort : (ofTypes package types).isShort .root = true ↔
      ∀ n ∈ types, n.simple ≠ DeclaredName.root.simple := by
    rw [isShort_iff, ← owner?_ofTypes_eq_none_iff, or_iff_right howner]
    exact and_iff_left rfl
  have hlong : (ofTypes package types).spellName .root = DeclaredName.root.qualified ↔
      ¬(ofTypes package types).isShort .root = true := by
    unfold spellName
    split
    · rename_i hs
      refine iff_of_false (fun he => ?_) (not_not_intro hs)
      exact DeclaredName.qualified_ne_simple (by decide) he.symm
    · rename_i hs
      exact iff_of_true rfl hs
  rw [hlong, hshort]
  simp only [ne_eq, not_forall, not_not, exists_prop]

/-! ## What a reader finds -/

/-- What a simple name means to a reader who knows the types of a file: an imported type, else one
of the package of the file, else one of the language package. -/
def read? (r : NameTable) (types : List DeclaredName) (s : String) : Option DeclaredName :=
  (r.imports ++ types.filter (·.package = r.package) ++
    types.filter (·.package = languagePackage)).find? (·.simple = s)

/-- Among the imports stands the owner of a simple name or nobody. -/
theorem find?_imports {r : NameTable} {s : String} {n : DeclaredName} (h : r.owner? s = some n) :
    r.imports.find? (·.simple = s) = if r.seesPackage n.package then none else some n := by
  have howner : ∀ m ∈ r.imports, m.simple = s → m = n := by
    intro m hm hs
    have ho := (mem_imports_iff.mp hm).1
    rw [hs, h] at ho
    exact (Option.some.inj ho).symm
  cases hfind : r.imports.find? (·.simple = s) with
  | none =>
      have hno : n ∉ r.imports := fun hn =>
        List.find?_eq_none.mp hfind n hn (decide_eq_true (simple_of_owner? h))
      rw [mem_imports_iff, simple_of_owner? h] at hno
      rw [if_pos (by simpa [h] using hno)]
  | some m =>
      have hm := List.mem_of_find?_eq_some hfind
      obtain rfl := howner m hm (by simpa using List.find?_some hfind)
      rw [(mem_imports_iff.mp hm).2, if_neg Bool.false_ne_true]

/-- In a package a simple name means one type or nothing. -/
theorem find?_package (p s : String) :
    (types.filter (·.package = p)).find? (·.simple = s) =
      if ⟨p, s⟩ ∈ types then some ⟨p, s⟩ else none := by
  cases hfind : (types.filter (·.package = p)).find? (·.simple = s) with
  | none =>
      rw [if_neg]
      intro hm
      refine List.find?_eq_none.mp hfind ⟨p, s⟩ (List.mem_filter.mpr ⟨hm, ?_⟩) ?_
      · exact decide_eq_true rfl
      · exact decide_eq_true rfl
  | some m =>
      obtain ⟨hm, hp⟩ := List.mem_filter.mp (List.mem_of_find?_eq_some hfind)
      have hs := List.find?_some hfind
      have he : m = ⟨p, s⟩ := by
        rw [← of_decide_eq_true hp, ← of_decide_eq_true hs]
      rw [← he, if_pos hm]

/-- **A reader finds the owner of a simple name.** -/
theorem read?_of_ownsName (h : DeclaredName.Increasing types) {n : DeclaredName}
    (hn : n.OwnsName package types) (hp : n.package ≠ "" ∨ n.package = package) :
    (ofTypes package types).read? types n.simple = some n := by
  have howner := (owner?_ofTypes_eq_some_iff h).mpr ⟨rfl, hn⟩
  unfold read?
  rw [List.find?_append, List.find?_append, find?_imports howner, find?_package, find?_package,
    package_ofTypes]
  obtain ⟨hm, hrule⟩ := hn
  by_cases hown : n.package = package
  · -- it is of the package of the file, where nothing is imported from
    subst hown
    rw [if_pos (by simp [seesPackage, package_ofTypes]), if_pos hm]
    rfl
  · by_cases hlang : n.package = languagePackage
    · obtain ⟨hno, -⟩ := hrule.resolve_left hown
      rw [if_pos (by simp [seesPackage, hlang]), if_neg hno, ← hlang, if_pos hm]
      rfl
    · -- it is foreign, and so it is imported
      have hsees : (ofTypes package types).seesPackage n.package = false := by
        simp [seesPackage, package_ofTypes, hown, hlang, hp.resolve_right hown]
      rw [hsees]
      rfl

/-! ## The rules together -/

theorem seesPackage_eq_false_iff {r : NameTable} {p : String} :
    r.seesPackage p = false ↔ p ≠ languagePackage ∧ p ≠ "" ∧ p ≠ r.package := by
  unfold seesPackage
  simp only [Bool.or_eq_false_iff, decide_eq_false_iff_not, ne_eq]
  tauto

/-- How a file spells names if it mentions these types. -/
structure Shortens (r : NameTable) (types : List DeclaredName) : Prop where
  /-- There are two spellings. -/
  spelled : ∀ n : DeclaredName, r.spellName n = n.simple ∨ r.spellName n = n.qualified
  /-- The short one is for the owner of the simple name. -/
  short_iff : ∀ n ∈ types, r.spellName n = n.simple ↔ n.OwnsName r.package types
  /-- Of the types with one simple name exactly one is spelled by it. -/
  unique : ∀ n ∈ types, ∃! m, m ∈ types ∧ m.simple = n.simple ∧ r.spellName m = m.simple
  /-- What is spelled short and cannot be seen without an import is imported, and nothing else. -/
  imported_iff : ∀ n : DeclaredName, n ∈ r.imports ↔
    (n ∈ types ∧ r.spellName n = n.simple) ∧
      n.package ≠ languagePackage ∧ n.package ≠ "" ∧ n.package ≠ r.package
  increasing : DeclaredName.Increasing r.imports
  nodup_simple : (r.imports.map (·.simple)).Nodup
  /-- The root is known to no file, and keeps clear of the types that are. -/
  root_iff : r.spellName .root = DeclaredName.root.qualified ↔
    ∃ n ∈ types, n.simple = DeclaredName.root.simple
  /-- A reader finds the type that a simple name was written for. -/
  read : ∀ n ∈ types, r.spellName n = n.simple → r.read? types n.simple = some n

/-- Of the types with one simple name, exactly one owns it. -/
theorem existsUnique_ownsName (h : DeclaredName.Increasing types) {n : DeclaredName}
    (hn : n ∈ types) : ∃! m : DeclaredName, m.simple = n.simple ∧ m.OwnsName package types := by
  cases ho : (ofTypes package types).owner? n.simple with
  | none => exact absurd rfl (owner?_ofTypes_eq_none_iff.mp ho n hn)
  | some m =>
      refine ⟨m, (owner?_ofTypes_eq_some_iff h).mp ho, fun m' hm' => ?_⟩
      have ho' := (owner?_ofTypes_eq_some_iff h).mpr hm'
      rw [ho] at ho'
      exact (Option.some.inj ho').symm

/-- **A file keeps the rules**, if it mentions no type of a default package other than its own. -/
theorem shortens_ofTypes (h : DeclaredName.Increasing types)
    (hp : ∀ n ∈ types, n.package ≠ "" ∨ n.package = package)
    (hroot : DeclaredName.root ∉ types) : (ofTypes package types).Shortens types := by
  have hshort : ∀ n ∈ types, (ofTypes package types).spellName n = n.simple ↔
      n.OwnsName package types := fun n hn => spellName_ofTypes_eq_simple_iff h hn (hp n hn)
  constructor
  · exact spellName_eq_simple_or_qualified _
  · rw [package_ofTypes]
    exact hshort
  · intro n hn
    have hone : ∃! m : DeclaredName, m.simple = n.simple ∧ m.OwnsName package types :=
      existsUnique_ownsName h hn
    obtain ⟨m, ⟨hs, ho⟩, hunique⟩ := hone
    refine ⟨m, ⟨ho.1, hs, (hshort m ho.1).mpr ho⟩, ?_⟩
    rintro m' ⟨hm', hs', hshort'⟩
    exact hunique m' ⟨hs', (hshort m' hm').mp hshort'⟩
  · intro n
    rw [mem_imports_iff, owner?_ofTypes_eq_some_iff h]
    refine and_congr ⟨?_, ?_⟩ seesPackage_eq_false_iff
    · rintro ⟨-, ho⟩
      exact ⟨ho.1, (hshort n ho.1).mpr ho⟩
    · rintro ⟨hn, hs⟩
      exact ⟨rfl, (hshort n hn).mp hs⟩
  · exact increasing_imports _
  · exact nodup_simple_imports _
  · exact spellName_root_ofTypes hroot
  · intro n hn hs
    exact read?_of_ownsName h ((hshort n hn).mp hs) (hp n hn)

/-! ## Types that are spelled alike -/

/-- The name that a spelling is, read as a qualified name. -/
def reading (r : NameTable) (n : DeclaredName) : DeclaredName :=
  if r.isShort n then ⟨"", n.simple⟩ else n

theorem spellName_eq_qualified_reading (r : NameTable) (n : DeclaredName) :
    r.spellName n = (r.reading n).qualified := by
  unfold spellName reading
  split
  · rfl
  · rfl

/-- **Names are spelled alike exactly if their spellings are read back as one name.** -/
theorem spellName_eq_spellName_iff {r : NameTable} {a b : DeclaredName}
    (ha : DeclaredName.IsSimple a.simple) (hb : DeclaredName.IsSimple b.simple) :
    r.spellName a = r.spellName b ↔ r.reading a = r.reading b := by
  have hsimple : ∀ n : DeclaredName, (r.reading n).simple = n.simple := by
    intro n
    unfold reading
    split
    · rfl
    · rfl
  rw [spellName_eq_qualified_reading, spellName_eq_qualified_reading]
  refine ⟨fun h => ?_, congrArg _⟩
  have hread := DeclaredName.ofQualified_qualified (n := r.reading a) (by rwa [hsimple])
  rw [h, DeclaredName.ofQualified_qualified (by rwa [hsimple])] at hread
  exact (Except.ok.inj hread).symm

/-- `b` hides `a`: that is a type of the default package with the simple name of `b`, and `b` is of
the package of the file, or is of the language package and the file mentions none of its own. -/
def Hides (package : String) (types : List DeclaredName) (b a : DeclaredName) : Prop :=
  a = ⟨"", b.simple⟩ ∧
    (b.package = package ∨ b.package = languagePackage ∧ ⟨package, b.simple⟩ ∉ types)

/-- The owner of a simple name hides the type of the default package that bears it. For no foreign
type owns a name that such a type bears. -/
theorem hides_iff {a b : DeclaredName} (ha : a ∈ types) (hb : b ∈ types) (hab : a ≠ b) :
    Hides package types b a ↔ a = ⟨"", b.simple⟩ ∧ b.OwnsName package types := by
  refine and_congr_right fun he => ⟨?_, ?_⟩
  · rintro (hp | ⟨hp, hno⟩)
    · exact ⟨hb, Or.inl hp⟩
    · exact ⟨hb, Or.inr ⟨hno, Or.inl hp⟩⟩
  · rintro ⟨-, hp | ⟨hno, hp | ⟨-, hleast⟩⟩⟩
    · exact Or.inl hp
    · exact Or.inr ⟨hp, hno⟩
    · -- the default package comes before all others
      have hle := hleast a ha (by rw [he])
      have hpackage : b.package = "" := by
        by_contra hne
        rw [he, Text.compare_empty hne] at hle
        exact absurd hle (by decide)
      refine absurd ?_ hab
      rw [he, ← hpackage]

/-- **Two types of a file are spelled alike exactly if one hides the other.** -/
theorem reading_ofTypes_eq_iff (h : DeclaredName.Increasing types) {a b : DeclaredName}
    (ha : a ∈ types) (hb : b ∈ types) (hab : a ≠ b) :
    (ofTypes package types).reading a = (ofTypes package types).reading b ↔
      Hides package types b a ∨ Hides package types a b := by
  rw [hides_iff ha hb hab, hides_iff hb ha hab.symm]
  have hone : a.OwnsName package types → b.OwnsName package types → a.simple ≠ b.simple := by
    intro hoa hob hs
    exact hab ((existsUnique_ownsName h ha).unique ⟨rfl, hoa⟩ ⟨hs.symm, hob⟩)
  have hshort : ∀ n ∈ types, (ofTypes package types).isShort n = true ↔
      n.OwnsName package types := fun n => isShort_ofTypes_iff h
  unfold reading
  by_cases hoa : a.OwnsName package types
  · by_cases hob : b.OwnsName package types
    · -- both are spelled short, so their simple names differ
      have hs := hone hoa hob
      rw [if_pos ((hshort a ha).mpr hoa), if_pos ((hshort b hb).mpr hob)]
      refine iff_of_false (fun he => hs (DeclaredName.mk.inj he).2) ?_
      rintro (⟨he, -⟩ | ⟨he, -⟩)
      · exact hs (by rw [he])
      · exact hs (by rw [he])
    · rw [if_pos ((hshort a ha).mpr hoa), if_neg (mt (hshort b hb).mp hob), eq_comm]
      simp only [hoa, hob, and_true, and_false, false_or]
  · by_cases hob : b.OwnsName package types
    · rw [if_neg (mt (hshort a ha).mp hoa), if_pos ((hshort b hb).mpr hob)]
      simp only [hoa, hob, and_true, and_false, or_false]
    · rw [if_neg (mt (hshort a ha).mp hoa), if_neg (mt (hshort b hb).mp hob)]
      simp only [hab, hoa, hob, and_false, or_false]

end NameTable

namespace CompilationUnit

theorem increasing_mentions (u : CompilationUnit) : DeclaredName.Increasing u.mentions :=
  DeclaredName.increasing_sortedSet _

/-- What the opening of a file settles holds to the end of its body. -/
theorem names_of_applyAll {u : CompilationUnit} {ops : List Writer.Op} (hops : ops <+: u.body.ops)
    {w : Writer} (h : u.opened.applyAll ops = .ok w) : w.names = u.names :=
  (Writer.applyAll_adds (fun op hop => (u.ops_know op (hops.subset hop)).keepsNames) h).names

/--
**Shortening names is sound.**

The opening of a file is never refused. It ends with an import for each name that
its table says, and the whole body is written under this table. If each type that
the file mentions is of a package with a name or of the package of the file, then
the table keeps the rules of shortening for these types; the root is none of them.
-/
theorem opening_shortens (u : CompilationUnit)
    (h : ∀ n ∈ u.mentions, n.package ≠ "" ∨ n.package = u.package) :
    ∃ w : Writer, Writer.new.applyAll u.opening = .ok w
      ∧ u.render = (w.applyAll u.body.ops >>= fun w' => w'.finish)
      ∧ w.lines = (u.header.toList.flatMap Line.comment ++ Line.package u.package ++
          Line.imports w.names.imports).toArray
      ∧ (∀ ops, ops <+: u.body.ops → ∀ w', w.applyAll ops = .ok w' → w'.names = w.names)
      ∧ DeclaredName.root ∉ u.mentions
      ∧ w.names.package = u.package
      ∧ w.names.Shortens u.mentions := by
  have hshortens : (NameTable.ofTypes u.package u.mentions).Shortens u.mentions :=
    NameTable.shortens_ofTypes u.increasing_mentions h u.root_not_mem_mentions
  refine ⟨u.opened, u.applyAll_opening, u.render_eq, rfl, ?_, u.root_not_mem_mentions,
    NameTable.package_ofTypes, hshortens⟩
  intro ops hops w' hw'
  exact names_of_applyAll hops hw'

/-- A class with a field of each of some types. -/
def ofFields (package name : String) (fields : List (String × DeclaredName)) : CompilationUnit where
  package := package
  header := none
  body := ⟨.ofClass name, fields.map fun f => .field ⟨[], .declared f.2 [] .scalar, f.1, none⟩⟩

/-- A file in which each rule decides about a simple name. -/
def clashing : CompilationUnit :=
  ofFields "app" "Clashing" [("own", ⟨"app", "Node"⟩), ("other", ⟨"java.lang", "Node"⟩),
    ("text", ⟨"java.lang", "String"⟩), ("rope", ⟨"a", "String"⟩), ("least", ⟨"java.awt", "List"⟩),
    ("later", ⟨"java.util", "List"⟩), ("object", ⟨"lib", "Object"⟩)]

theorem opening_shortens_clashing :
    (∀ n ∈ clashing.mentions, n.package ≠ "" ∨ n.package = clashing.package)
      ∧ ∃ w : Writer, Writer.new.applyAll clashing.opening = .ok w
        ∧ w.names.Shortens clashing.mentions
        ∧ w.names.imports = [⟨"java.awt", "List"⟩, ⟨"lib", "Object"⟩]
        ∧ w.names.spellName .root = "java.lang.Object"
        ∧ w.names.read? clashing.mentions "String" = some ⟨"java.lang", "String"⟩ := by
  have hp : ∀ n ∈ clashing.mentions, n.package ≠ "" ∨ n.package = clashing.package := by
    decide +kernel
  obtain ⟨w, hw, -, -, -, -, -, hs⟩ := opening_shortens clashing hp
  refine ⟨hp, w, hw, hs, ?_⟩
  obtain rfl := Except.ok.inj (clashing.applyAll_opening.symm.trans hw)
  decide +kernel

/--
**Only a type of the default package is ever spelled like another type**: like the
one that hides it.

A file can spell such a type by its simple name alone, whoever owns that name. All
other types that it mentions are spelled apart.
-/
theorem spellName_eq_iff_hides (u : CompilationUnit)
    (h : ∀ n ∈ u.mentions, ∃ text, DeclaredName.ofQualified text = .ok n) :
    ∃ w : Writer, Writer.new.applyAll u.opening = .ok w
      ∧ ∀ a ∈ u.mentions, ∀ b ∈ u.mentions, a ≠ b →
        (w.names.spellName a = w.names.spellName b ↔
          NameTable.Hides u.package u.mentions b a ∨ NameTable.Hides u.package u.mentions a b) := by
  refine ⟨u.opened, u.applyAll_opening, fun a ha b hb hab => ?_⟩
  have hsimple : ∀ n ∈ u.mentions, DeclaredName.IsSimple n.simple := by
    intro n hn
    obtain ⟨text, htext⟩ := h n hn
    exact DeclaredName.isSimple_of_ofQualified htext
  rw [NameTable.spellName_eq_spellName_iff (hsimple a ha) (hsimple b hb)]
  exact NameTable.reading_ofTypes_eq_iff u.increasing_mentions ha hb hab

/-- A file of a package with two types of one simple name, one of them of the default package. -/
def twoNodes : CompilationUnit :=
  ofFields "app" "Both" [("a", ⟨"app", "Node"⟩), ("b", ⟨"", "Node"⟩)]

theorem spellName_eq_iff_hides_twoNodes :
    (∀ n ∈ twoNodes.mentions, ∃ text, DeclaredName.ofQualified text = .ok n)
      ∧ ∃ w : Writer, Writer.new.applyAll twoNodes.opening = .ok w
        ∧ NameTable.Hides twoNodes.package twoNodes.mentions ⟨"app", "Node"⟩ ⟨"", "Node"⟩
        ∧ w.names.spellName ⟨"", "Node"⟩ = w.names.spellName ⟨"app", "Node"⟩ := by
  have hall : ∀ n ∈ twoNodes.mentions, DeclaredName.ofQualified n.qualified = .ok n := by
    decide +kernel
  have hread : ∀ n ∈ twoNodes.mentions, ∃ text, DeclaredName.ofQualified text = .ok n :=
    fun n hn => ⟨n.qualified, hall n hn⟩
  have hhides : NameTable.Hides twoNodes.package twoNodes.mentions ⟨"app", "Node"⟩ ⟨"", "Node"⟩ :=
    ⟨rfl, Or.inl rfl⟩
  obtain ⟨w, hw, hiff⟩ := spellName_eq_iff_hides twoNodes hread
  refine ⟨hread, w, hw, hhides, ?_⟩
  exact (hiff _ (by decide +kernel) _ (by decide +kernel) (by decide)).mpr (Or.inl hhides)

/-- Names that are spelled alike need not be one name. -/
theorem not_spellName_injective :
    ¬∀ u : CompilationUnit, (∀ n ∈ u.mentions, ∃ text, DeclaredName.ofQualified text = .ok n) →
      ∀ w : Writer, Writer.new.applyAll u.opening = .ok w →
      ∀ a ∈ u.mentions, ∀ b ∈ u.mentions, a ≠ b → w.names.spellName a ≠ w.names.spellName b := by
  intro hall
  have hread : ∀ n ∈ twoNodes.mentions, DeclaredName.ofQualified n.qualified = .ok n := by
    decide +kernel
  refine hall twoNodes (fun n hn => ⟨n.qualified, hread n hn⟩) _ twoNodes.applyAll_opening
    ⟨"app", "Node"⟩ (by decide +kernel) ⟨"", "Node"⟩ (by decide +kernel) (by decide) ?_
  decide +kernel

end CompilationUnit

end TraitWeaver
