import TraitWeaver.FileSystem
import TraitWeaver.Proofs.RoundAccount
import TraitWeaver.Proofs.Shortening
import TraitWeaver.Proofs.TraitResolution

/-!
# Where generated files go

The file of a type is asked for by the qualified name of the type, and each dot of
the name becomes a slash. Two things come of that:

* **No part of the path leads up.** Dots are what `..` is made of, and none is left
  but the one before `java`.
* **The path need not be relative.** A name that begins with a dot gives a path that
  begins with a slash (`StartsAtRoot`), and joining does not put such a path below
  the directory but takes it as it is.

So whether files stay below the directory depends on the first character of their
names, and on nothing else. It comes from the declaration: for a trait it is the
first one of its qualified name.
-/

namespace TraitWeaver

/-! ## Components of a path -/

namespace Path

/-- The component that says where a path begins: at the root of the file system, or expressly where
paths begin. -/
def beginning (p : Path) : List String :=
  if p.isAbsolute then ["/"] else if p.pieces.head? = some "." then ["."] else []

/-- What a path consists of, up to the ways of writing it. -/
def components (p : Path) : List String := p.beginning ++ p.parts

/-- A path goes on from another one by names, none of which leads up or back to the root. -/
def Below (p base : Path) : Prop :=
  ∃ names, names ≠ [] ∧ ".." ∉ names ∧ "/" ∉ names ∧ p.components = base.components ++ names

theorem slash_not_mem_parts (p : Path) : "/" ∉ p.parts := by
  intro h
  exact Text.not_mem_of_mem_pieces (List.mem_filter.mp h).1 (List.mem_singleton.mpr rfl)

theorem slash_mem_components_iff {p : Path} : "/" ∈ p.components ↔ p.isAbsolute := by
  unfold components beginning
  rw [List.mem_append, or_iff_left p.slash_not_mem_parts]
  cases p.isAbsolute with
  | true => exact iff_of_true (List.mem_singleton.mpr rfl) rfl
  | false =>
      refine iff_of_false ?_ Bool.false_ne_true
      rw [if_neg Bool.false_ne_true]
      split <;> decide

/-- Only below an absolute path is another one absolute. -/
theorem Below.isAbsolute {p base : Path} (h : p.Below base) (hp : p.isAbsolute) :
    base.isAbsolute := by
  obtain ⟨names, -, -, hslash, hcomponents⟩ := h
  have hmem := slash_mem_components_iff.mpr hp
  rw [hcomponents, List.mem_append, or_iff_left hslash] at hmem
  exact slash_mem_components_iff.mp hmem

/-! ## Joining -/

theorem join_of_isAbsolute {base p : Path} (h : p.isAbsolute) : base.join p = p := by
  unfold join
  rw [if_pos h]

/-- The pieces of a joined path are those of the two, but for an empty one between them. -/
theorem exists_pieces_join {base p : Path} (hbase : base.text ≠ "") (hp : ¬ p.isAbsolute) :
    ∃ front idle, front ≠ [] ∧ (∀ piece ∈ idle, isIdle piece) ∧ base.pieces = front ++ idle
      ∧ (base.join p).pieces = front ++ p.pieces := by
  unfold join
  rw [if_neg hp]
  by_cases hslash : base.text.toList.getLast? = some '/'
  · rw [if_pos (by simpa using Or.inr hslash)]
    obtain ⟨front, hfront⟩ := List.getLast?_eq_some_iff.mp hslash
    have hbase : base.text = String.ofList front ++ String.singleton '/' := by
      rw [← String.toList_inj, hfront]
      simp
    refine ⟨Text.pieces '/' (String.ofList front), [""], ?_, ?_, ?_, ?_⟩
    · exact fun h => Text.splitAll_ne_nil _ _ (List.map_eq_nil_iff.mp h)
    · exact List.forall_mem_singleton.mpr rfl
    · have hpieces := Text.pieces_append_sep '/' (String.ofList front) ""
      rw [String.append_empty, ← hbase] at hpieces
      exact hpieces
    · show Text.pieces '/' (base.text ++ p.text) = _
      rw [hbase]
      exact Text.pieces_append_sep ..
  · rw [if_neg (by simpa using ⟨hbase, hslash⟩)]
    refine ⟨base.pieces, [], ?_, ?_, (List.append_nil _).symm, ?_⟩
    · exact fun h => Text.splitAll_ne_nil _ _ (List.map_eq_nil_iff.mp h)
    · exact fun piece h => absurd h List.not_mem_nil
    · exact Text.pieces_append_sep ..

theorem exists_text_join (base : Path) {p : Path} (hp : ¬ p.isAbsolute) :
    ∃ rest, (base.join p).text = base.text ++ rest := by
  unfold join
  rw [if_neg hp]
  split
  · exact ⟨p.text, rfl⟩
  · exact ⟨"/" ++ p.text, String.append_assoc ..⟩

theorem isAbsolute_join {base p : Path} (hbase : base.text ≠ "") (hp : ¬ p.isAbsolute) :
    (base.join p).isAbsolute = base.isAbsolute := by
  obtain ⟨rest, hrest⟩ := exists_text_join base hp
  have hne : base.text.toList ≠ [] := fun h => hbase (String.toList_eq_nil_iff.mp h)
  unfold isAbsolute
  rw [hrest, String.toList_append, List.head?_append_of_ne_nil _ hne]

/-- **A relative path goes on where the other one ends**, unless it expressly begins where paths
begin. -/
theorem components_join {base p : Path} (hp : ¬ p.isAbsolute) (hdot : p.pieces.head? ≠ some ".") :
    (base.join p).components = base.components ++ p.parts := by
  by_cases hbase : base.text = ""
  · -- nothing is put before the path
    obtain ⟨text⟩ := base
    obtain rfl : text = "" := hbase
    have hjoin : (⟨""⟩ : Path).join p = p := by
      unfold join
      rw [if_neg hp]
      exact congrArg Path.mk (String.empty_append ..)
    have hempty : (⟨""⟩ : Path).components = [] := rfl
    rw [hjoin, hempty, List.nil_append, components, beginning, if_neg hp, if_neg hdot,
      List.nil_append]
  · obtain ⟨front, idle, hfront, hidle, hpieces, hjoined⟩ := exists_pieces_join hbase hp
    have hbeginning : (base.join p).beginning = base.beginning := by
      unfold beginning
      rw [isAbsolute_join hbase hp, hjoined, hpieces, List.head?_append_of_ne_nil _ hfront,
        List.head?_append_of_ne_nil _ hfront]
    have hnone : idle.filter (!isIdle ·) = [] := by
      refine List.filter_eq_nil_iff.mpr fun piece h => ?_
      rw [hidle piece h]
      exact Bool.false_ne_true
    unfold components
    rw [hbeginning, List.append_assoc]
    unfold parts
    rw [hjoined, hpieces, List.filter_append, List.filter_append, hnone, List.append_nil]

/-! ## The file of a type -/

/-- The name begins with a dot or a slash, and so its path begins at the root of the file system. -/
def StartsAtRoot (name : String) : Prop :=
  name.toList.head? = some '.' ∨ name.toList.head? = some '/'

instance (name : String) : Decidable (StartsAtRoot name) := inferInstanceAs (Decidable (_ ∨ _))

theorem isAbsolute_ofTypeName_iff {name : String} :
    (ofTypeName name).isAbsolute ↔ StartsAtRoot name := by
  unfold ofTypeName isAbsolute StartsAtRoot
  rw [decide_eq_true_iff, String.toList_append, String.toList_ofList]
  cases name.toList with
  | nil => decide
  | cons c cs =>
      rw [List.map_cons, List.cons_append, List.head?_cons, List.head?_cons]
      split
      · rename_i hdot
        simp [hdot]
      · rename_i hdot
        simp [hdot]

/-- In the path of a file there are no dots but the one at the end. -/
theorem exists_pieces_ofTypeName (name : String) :
    ∃ before last, (ofTypeName name).pieces = before ++ [last ++ ".java"]
      ∧ ∀ piece ∈ before, '.' ∉ piece.toList := by
  have hjava : '/' ∉ ".java".toList := by decide
  have hdots : '.' ∉ name.toList.map fun c => if c = '.' then '/' else c := by
    intro h
    obtain ⟨c, -, hc⟩ := List.mem_map.mp h
    split at hc
    · exact absurd hc (by decide)
    · contradiction
  obtain ⟨before, last, hname, hall⟩ := Text.exists_splitAll_append
    (name.toList.map fun c => if c = '.' then '/' else c) hjava
  refine ⟨before.map String.ofList, String.ofList last, ?_, ?_⟩
  · unfold pieces ofTypeName Text.pieces
    rw [String.toList_append, String.toList_ofList, hall, List.map_append, List.map_singleton,
      String.ofList_append, String.ofList_toList]
  · intro piece hpiece
    obtain ⟨cs, hcs, rfl⟩ := List.mem_map.mp hpiece
    rw [String.toList_ofList]
    intro hdot
    exact hdots (Text.of_mem_splitAll (hname ▸ List.mem_append_left _ hcs) '.' hdot).1

theorem ne_dots_of_mem_pieces {name piece : String} (h : piece ∈ (ofTypeName name).pieces) :
    piece ≠ "." ∧ piece ≠ ".." := by
  obtain ⟨before, last, hpieces, hdots⟩ := exists_pieces_ofTypeName name
  rw [hpieces] at h
  rcases List.mem_append.mp h with h | h
  · have hdot := hdots piece h
    refine ⟨?_, ?_⟩
    · rintro rfl
      exact hdot (by decide)
    · rintro rfl
      exact hdot (by decide)
  · -- it has an ending that neither of the two has
    have hmem : 'j' ∈ piece.toList := by
      rw [List.mem_singleton.mp h, String.toList_append]
      exact List.mem_append_right _ (by decide)
    refine ⟨?_, ?_⟩
    · rintro rfl
      exact absurd hmem (by decide)
    · rintro rfl
      exact absurd hmem (by decide)

theorem parts_ofTypeName_ne_nil (name : String) : (ofTypeName name).parts ≠ [] := by
  obtain ⟨before, last, hpieces, -⟩ := exists_pieces_ofTypeName name
  have hlast : last ++ ".java" ∈ (ofTypeName name).pieces := by
    rw [hpieces]
    exact List.mem_concat_self
  have hne : last ++ ".java" ≠ "" := fun h => by
    have := (String.append_eq_empty_iff.mp h).2
    exact absurd this (by decide)
  have hidle : isIdle (last ++ ".java") = false := by
    unfold isIdle
    rw [decide_eq_false hne, decide_eq_false (ne_dots_of_mem_pieces hlast).1]
    rfl
  exact List.ne_nil_of_mem (List.mem_filter.mpr ⟨hlast, by rw [hidle]; rfl⟩)

end Path

/-- **The file of a type is below the directory, unless the name of the type starts at the root.** -/
theorem OutputDirectory.below_pathOf {name : String} (h : ¬ Path.StartsAtRoot name)
    (d : OutputDirectory) : (d.pathOf name).Below d.root := by
  have hrelative : ¬ (Path.ofTypeName name).isAbsolute := mt Path.isAbsolute_ofTypeName_iff.mp h
  have hdot : (Path.ofTypeName name).pieces.head? ≠ some "." :=
    fun hhead => (Path.ne_dots_of_mem_pieces (List.mem_of_head? hhead)).1 rfl
  refine ⟨(Path.ofTypeName name).parts, Path.parts_ofTypeName_ne_nil name, ?_,
    Path.slash_not_mem_parts _, Path.components_join hrelative hdot⟩
  exact fun hdots => (Path.ne_dots_of_mem_pieces (List.mem_filter.mp hdots).1).2 rfl

/-- Otherwise it is where its name says, whatever the directory is. -/
theorem OutputDirectory.pathOf_of_startsAtRoot {name : String} (h : Path.StartsAtRoot name)
    (d : OutputDirectory) : d.pathOf name = .ofTypeName name :=
  Path.join_of_isAbsolute (Path.isAbsolute_ofTypeName_iff.mpr h)

/-! ## The files of a declaration -/

theorem Path.startsAtRoot_append {s : String} (h : s ≠ "") (rest : String) :
    StartsAtRoot (s ++ rest) ↔ StartsAtRoot s := by
  have hne : s.toList ≠ [] := fun hnil => h (String.toList_eq_nil_iff.mp hnil)
  unfold StartsAtRoot
  rw [String.toList_append, List.head?_append_of_ne_nil _ hne]

/-- The first character is one of the package, if there is a package. -/
theorem DeclaredName.startsAtRoot_qualified_iff {n : DeclaredName} :
    Path.StartsAtRoot n.qualified ↔
      Path.StartsAtRoot (if n.package = "" then n.simple else n.package) := by
  unfold qualified
  by_cases hpackage : n.package = ""
  · rw [if_pos hpackage, if_pos hpackage]
  · rw [if_neg hpackage, if_neg hpackage]
    show Path.StartsAtRoot (n.package ++ "." ++ n.simple) ↔ _
    rw [String.append_assoc]
    exact Path.startsAtRoot_append hpackage _

namespace Request

/-- What is asked for is what a declaration means. -/
inductive IsDeclared (config : Config) : Request → Prop where
  | trait {d : TraitDecl} {t : Trait} {ds : List Diagnostic} : d.resolve config = .ok (t, ds) →
      IsDeclared config (.trait t)
  | host {d : HostDecl} {index : TraitIndex} {h : Host} : (d.resolve index).1 = .ok h →
      IsDeclared config (.host h)

/-- The declaration is in a package that begins with a dot or a slash; or else it is in no package,
and it is the name of the trait or of the superclass that begins so. -/
def LeadsOut (config : Config) : Request → Prop
  | .trait t => Path.StartsAtRoot (if t.name.package = "" then t.name.simple else t.name.package)
  | .host h => Path.StartsAtRoot
    (if h.name.package = "" then config.superclassOf h.name.simple else h.name.package)

instance (config : Config) : (r : Request) → Decidable (r.LeadsOut config)
  | .trait _ => inferInstanceAs (Decidable (Path.StartsAtRoot _))
  | .host _ => inferInstanceAs (Decidable (Path.StartsAtRoot _))

variable {config : Config} {r : Request} {name : String}

/-- All files of a declaration are in its package, and none of them has a name that begins in
another way than the others. -/
theorem IsDeclared.startsAtRoot_iff (h : r.IsDeclared config) (hname : name ∈ r.fileNames config) :
    Path.StartsAtRoot name ↔ r.LeadsOut config := by
  cases h with
  | @trait d t ds h =>
      have hsimple := (DeclaredName.isSimple_of_ofQualified (TraitDecl.ofQualified_of_resolve h)).1
      have hfile (suffix : String) :
          Path.StartsAtRoot (⟨t.name.package, t.name.simple ++ suffix⟩ : DeclaredName).qualified ↔
            LeadsOut config (.trait t) := by
        rw [DeclaredName.startsAtRoot_qualified_iff]
        unfold LeadsOut
        dsimp only
        split
        · exact Path.startsAtRoot_append hsimple suffix
        · rfl
      rcases List.mem_cons.mp hname with rfl | hname
      · exact hfile config.interfaceSuffix
      · rw [List.mem_singleton.mp hname]
        exact hfile config.delegateSuffix
  | @host d index h hresolve =>
      rw [List.mem_singleton.mp hname]
      exact DeclaredName.startsAtRoot_qualified_iff (n := ⟨h.name.package, _⟩)

end Request

/--
**Where the files of a declaration go.**

They are below the directory, whatever directory that is, exactly if the declaration
does not lead out. If it does, they go where their names say, and a directory with a
relative path has none of them below it.
-/
theorem Request.below_iff (config : Config) {r : Request} (h : r.IsDeclared config) {name : String}
    (hname : name ∈ r.fileNames config) :
    ((∀ d : OutputDirectory, (d.pathOf name).Below d.root) ↔ ¬ r.LeadsOut config)
      ∧ (r.LeadsOut config → ∀ d : OutputDirectory, d.pathOf name = .ofTypeName name
        ∧ ((d.pathOf name).Below d.root → d.root.isAbsolute)) := by
  have hout : r.LeadsOut config → ∀ d : OutputDirectory, d.pathOf name = .ofTypeName name
      ∧ ((d.pathOf name).Below d.root → d.root.isAbsolute) := by
    intro hleads d
    have hstarts := (h.startsAtRoot_iff hname).mpr hleads
    have hpath := d.pathOf_of_startsAtRoot hstarts
    refine ⟨hpath, fun hbelow => hbelow.isAbsolute ?_⟩
    rw [hpath]
    exact Path.isAbsolute_ofTypeName_iff.mpr hstarts
  refine ⟨⟨fun hall hleads => ?_, fun hleads d => ?_⟩, hout⟩
  · have habsolute := (hout hleads (.new ⟨"out"⟩)).2 (hall (.new ⟨"out"⟩))
    exact absurd habsolute (by decide)
  · exact d.below_pathOf (mt (h.startsAtRoot_iff hname).mp hleads)

/-- A trait whose package begins with a dot. -/
def hiddenBox : Trait := ⟨⟨⟨".etc", "Box"⟩, []⟩, "Box", [], [], [], []⟩

theorem Request.isDeclared_hiddenBox : IsDeclared .default (.trait hiddenBox) := by
  have hresolve : TraitDecl.resolve ⟨".etc.Box", [], none, [], []⟩ .default =
      .ok (hiddenBox, []) := by decide +kernel
  exact .trait hresolve

/-- Its interface goes to the directory `etc` of the file system. -/
theorem Request.below_iff_hiddenBox :
    IsDeclared .default (.trait hiddenBox)
      ∧ ".etc.BoxTrait" ∈ (Request.trait hiddenBox).fileNames .default
      ∧ (Request.trait hiddenBox).LeadsOut .default
      ∧ (OutputDirectory.new ⟨"out"⟩).pathOf ".etc.BoxTrait" = ⟨"/etc/BoxTrait.java"⟩ := by
  have hname : ".etc.BoxTrait" ∈ (Request.trait hiddenBox).fileNames .default := by decide +kernel
  have hleads : (Request.trait hiddenBox).LeadsOut .default := by decide
  have hpath := ((Request.below_iff .default isDeclared_hiddenBox hname).2 hleads (.new ⟨"out"⟩)).1
  exact ⟨isDeclared_hiddenBox, hname, hleads, hpath.trans (by decide +kernel)⟩

/-- Not all files of all declarations are below the directory. -/
theorem Request.not_forall_below :
    ¬ ∀ (config : Config) (r : Request), r.IsDeclared config → ∀ name ∈ r.fileNames config,
      ∀ d : OutputDirectory, (d.pathOf name).Below d.root := by
  intro h
  have hbelow := h .default _ isDeclared_hiddenBox ".etc.BoxTrait" (by decide +kernel)
    (.new ⟨"out"⟩)
  exact absurd (hbelow.isAbsolute (by decide +kernel)) (by decide)

end TraitWeaver
