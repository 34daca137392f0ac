import TraitWeaver.Proofs.Conversion
import TraitWeaver.Proofs.NameReading
import TraitWeaver.TypeRef.Display
import TraitWeaver.TypeRef.Occurrences

/-!
# Which spellings are types

A spelling can be anything that a declaration can be read as. Whether it is a type is
a question about the types in it, each at its place: one kind of type, the
intersection, is in order at one place and at no other, and the rest have to be named
properly. `WellFormed` asks this of every type that occurs, and the resolver refuses
exactly the others (`exists_resolvesTo_iff`).

What a well-formed spelling stands for is the relation `Denotes`. It pairs each type
that is no array with a reference, and the arrays around it are the depth of that
reference. Two kinds of type are paired with none: an intersection, in whose place its
components stand, and the root as a bound.
-/

namespace TraitWeaver

namespace SourceType

/-! ## Places -/

/-- How a type stands in a spelling. -/
inductive Place where
  /-- It is the spelling. -/
  | whole
  | argument
  | arrayComponent
  /-- It is the upper bound of a variable or of a wildcard. -/
  | upper
  | lower
  /-- It is one of the types of an intersection. -/
  | part
deriving DecidableEq

/-- The second type stands directly in the first one. -/
inductive Holds : SourceType → Place → SourceType → Prop where
  | argument {name : String} {args : List SourceType} {u : SourceType} (h : u ∈ args) :
      Holds (.declared name args) .argument u
  | arrayComponent {u : SourceType} : Holds (.array u) .arrayComponent u
  | upperOfVariable {name : String} {u : SourceType} {lower : Option SourceType} :
      Holds (.typeVariable name (some u) lower) .upper u
  | lowerOfVariable {name : String} {upper : Option SourceType} {u : SourceType} :
      Holds (.typeVariable name upper (some u)) .lower u
  | upperOfWildcard {u : SourceType} {lower : Option SourceType} :
      Holds (.wildcard (some u) lower) .upper u
  | lowerOfWildcard {upper : Option SourceType} {u : SourceType} :
      Holds (.wildcard upper (some u)) .lower u
  | part {bounds : List SourceType} {u : SourceType} (h : u ∈ bounds) :
      Holds (.intersection bounds) .part u

/-- In the first type, which stands at a place itself, the second one occurs. -/
inductive Occurs : Place → SourceType → Place → SourceType → Prop where
  | here (place : Place) (t : SourceType) : Occurs place t place t
  | inside {place inner outer : Place} {t u v : SourceType} (h : Holds t inner u)
      (hv : Occurs inner u outer v) : Occurs place t outer v

/-- What is asked of a type at a place holds of every type that occurs, too. -/
def Throughout (P : Place → SourceType → Prop) (place : Place) (t : SourceType) : Prop :=
  ∀ place' u, Occurs place t place' u → P place' u

section

variable {P : Place → SourceType → Prop} {place place' : Place} {t : SourceType} {name : String}
  {args bounds : List SourceType} {component : SourceType} {upper lower : Option SourceType}

theorem throughout_iff :
    Throughout P place t ↔ P place t ∧ ∀ inner u, Holds t inner u → Throughout P inner u := by
  refine ⟨fun h => ⟨h _ _ (.here place t), fun inner u hu place' v hv => h _ _ (.inside hu hv)⟩, ?_⟩
  rintro ⟨ht, hinner⟩ place' u hu
  cases hu with
  | here => exact ht
  | inside hold hu => exact hinner _ _ hold _ _ hu

/-- The place of a type matters to the type itself only. -/
theorem throughout_congr (h : P place t ↔ P place' t) :
    Throughout P place t ↔ Throughout P place' t := by
  rw [throughout_iff, throughout_iff, h]

theorem forall_holds_declared_iff :
    (∀ inner u, Holds (.declared name args) inner u → P inner u) ↔ ∀ a ∈ args, P .argument a := by
  refine ⟨fun h a ha => h _ _ (.argument ha), ?_⟩
  rintro h _ u (hu | _)
  exact h u hu

theorem forall_holds_array_iff :
    (∀ inner u, Holds (.array component) inner u → P inner u) ↔ P .arrayComponent component := by
  refine ⟨fun h => h _ _ .arrayComponent, ?_⟩
  rintro h _ _ (_ | _)
  exact h

theorem forall_holds_typeVariable_iff :
    (∀ inner u, Holds (.typeVariable name upper lower) inner u → P inner u) ↔
      (∀ u, upper = some u → P .upper u) ∧ ∀ l, lower = some l → P .lower l := by
  refine ⟨fun h => ⟨?_, ?_⟩, ?_⟩
  · rintro u rfl
    exact h _ _ .upperOfVariable
  · rintro l rfl
    exact h _ _ .lowerOfVariable
  · rintro ⟨hupper, hlower⟩ _ _ (_ | _)
    · exact hupper _ rfl
    · exact hlower _ rfl

theorem forall_holds_wildcard_iff :
    (∀ inner u, Holds (.wildcard upper lower) inner u → P inner u) ↔
      (∀ u, upper = some u → P .upper u) ∧ ∀ l, lower = some l → P .lower l := by
  refine ⟨fun h => ⟨?_, ?_⟩, ?_⟩
  · rintro u rfl
    exact h _ _ .upperOfWildcard
  · rintro l rfl
    exact h _ _ .lowerOfWildcard
  · rintro ⟨hupper, hlower⟩ _ _ (_ | _)
    · exact hupper _ rfl
    · exact hlower _ rfl

theorem forall_holds_intersection_iff :
    (∀ inner u, Holds (.intersection bounds) inner u → P inner u) ↔ ∀ b ∈ bounds, P .part b := by
  refine ⟨fun h b hb => h _ _ (.part hb), ?_⟩
  rintro h _ b (_ | _)
  exact h b ‹_›

/-- What an upper bound consists of stands there as the bound or as a part of it. -/
theorem throughout_components (h : ∀ u, upper = some u → Throughout P .upper u) :
    ∀ u ∈ components upper, Throughout P .upper u ∨ Throughout P .part u := by
  cases upper with
  | none => exact fun u hu => absurd hu List.not_mem_nil
  | some t =>
      cases t with
      | intersection bounds =>
          have hparts := (throughout_iff.mp (h _ rfl)).2
          exact fun u hu => Or.inr (forall_holds_intersection_iff.mp hparts u hu)
      | _ => exact List.forall_mem_singleton.mpr (Or.inl (h _ rfl))

end

/-! ## Well-formed spellings -/

/-- The type is in order at its place, whatever is to be said of the types in it. -/
def FitsAt (place : Place) : SourceType → Prop
  | .primitive name => name = "void" ∨ name ∈ DeclaredName.primitiveNames
  | .declared name _ => DeclaredName.EndsInName name
  | .typeVariable name _ _ => name ≠ ""
  | .intersection bounds =>
    place = .upper ∧ ∀ b ∈ bounds, ∀ bounds', b ≠ .intersection bounds'
  | .void | .array _ | .wildcard _ _ => True

/-- **The spelling is well formed**: every type that occurs in it is in order at its place. -/
def WellFormed (t : SourceType) : Prop := t.Throughout FitsAt .whole

section

variable {place : Place} {t : SourceType} {name : String} {args bounds : List SourceType}
  {component : SourceType} {upper lower : Option SourceType}

theorem fitsAt_congr {place' : Place} (h : ∀ bounds, t ≠ .intersection bounds) :
    FitsAt place t ↔ FitsAt place' t := by
  cases t with
  | intersection bounds => exact absurd rfl (h bounds)
  | _ => exact Iff.rfl

/-- Only an upper bound may be what could not stand alone. -/
theorem throughout_fitsAt_iff (h : place ≠ .upper) : t.Throughout FitsAt place ↔ t.WellFormed := by
  refine throughout_congr ?_
  cases t with
  | intersection bounds => exact iff_of_false (fun ht => h ht.1) nofun
  | _ => exact Iff.rfl

/-- **An upper bound is in order if all that it consists of could stand alone.** -/
theorem throughout_upper_iff :
    (∀ u, upper = some u → u.Throughout FitsAt .upper) ↔ ∀ u ∈ components upper, u.WellFormed := by
  cases upper with
  | none => simp [components]
  | some t =>
      simp only [Option.some.injEq, forall_eq']
      by_cases h : ∃ bounds, t = .intersection bounds
      · obtain ⟨bounds, rfl⟩ := h
        rw [throughout_iff, forall_holds_intersection_iff]
        refine ⟨fun h b hb => (throughout_fitsAt_iff (by decide)).mp (h.2 b hb), fun h => ?_⟩
        refine ⟨⟨rfl, fun b hb parts he => ?_⟩,
          fun b hb => (throughout_fitsAt_iff (by decide)).mpr (h b hb)⟩
        have hfits := (throughout_iff.mp (he ▸ h b hb)).1
        cases hfits.1
      · have hne : ∀ bounds, t ≠ .intersection bounds := fun bounds he => h ⟨bounds, he⟩
        rw [components_some hne, List.forall_mem_singleton]
        exact throughout_congr (fitsAt_congr hne)

theorem wellFormed_declared_iff :
    WellFormed (.declared name args) ↔
      DeclaredName.EndsInName name ∧ ∀ a ∈ args, a.WellFormed := by
  unfold WellFormed
  rw [throughout_iff, forall_holds_declared_iff]
  exact and_congr_right fun _ => forall₂_congr fun _ _ => throughout_fitsAt_iff (by decide)

theorem wellFormed_array_iff : WellFormed (.array component) ↔ component.WellFormed := by
  unfold WellFormed
  rw [throughout_iff, forall_holds_array_iff]
  exact (and_iff_right trivial).trans (throughout_fitsAt_iff (by decide))

theorem wellFormed_typeVariable_iff :
    WellFormed (.typeVariable name upper lower) ↔
      name ≠ "" ∧ (∀ u ∈ components upper, u.WellFormed) ∧ ∀ l, lower = some l → l.WellFormed := by
  unfold WellFormed
  rw [throughout_iff, forall_holds_typeVariable_iff, throughout_upper_iff]
  exact and_congr_right fun _ => and_congr_right fun _ =>
    forall₂_congr fun _ _ => throughout_fitsAt_iff (by decide)

theorem wellFormed_wildcard_iff :
    WellFormed (.wildcard upper lower) ↔
      (∀ u ∈ components upper, u.WellFormed) ∧ ∀ l, lower = some l → l.WellFormed := by
  unfold WellFormed
  rw [throughout_iff, forall_holds_wildcard_iff, throughout_upper_iff]
  exact (and_iff_right trivial).trans (and_congr_right fun _ =>
    forall₂_congr fun _ _ => throughout_fitsAt_iff (by decide))

end

/-! ## What is resolved -/

theorem isPrimitive_iff {name : String} :
    DeclaredName.isPrimitive ⟨"", name⟩ = true ↔
      name = "void" ∨ name ∈ DeclaredName.primitiveNames := by
  unfold DeclaredName.isPrimitive
  simp

/-- **Exactly the well-formed spellings are resolved.** -/
theorem exists_resolvesTo_iff (t : SourceType) : (∃ r, t.ResolvesTo r) ↔ t.WellFormed := by
  induction t using inductOnComponents with
  | primitive name =>
      simp only [resolvesTo_primitive_iff, exists_and_left, exists_eq, and_true]
      rw [isPrimitive_iff, WellFormed, throughout_iff]
      exact (and_iff_left nofun).symm
  | void =>
      refine iff_of_true ⟨_, resolvesTo_void_iff.mpr rfl⟩ (throughout_iff.mpr ⟨trivial, ?_⟩)
      exact nofun
  | declared name args ih =>
      simp only [resolvesTo_declared_iff, wellFormed_declared_iff,
        ← DeclaredName.exists_ofQualified_iff]
      rw [← forall₂_congr ih, ← exists_forall₂_iff]
      refine ⟨?_, ?_⟩
      · rintro ⟨_, n, rs, hn, hrs, -⟩
        exact ⟨⟨n, hn⟩, rs, hrs⟩
      · rintro ⟨⟨n, hn⟩, rs, hrs⟩
        exact ⟨_, n, rs, hn, hrs, rfl⟩
  | array component ih =>
      simp only [resolvesTo_array_iff, wellFormed_array_iff, ← ih]
      exact ⟨fun ⟨_, c, hc, _⟩ => ⟨c, hc⟩, fun ⟨c, hc⟩ => ⟨_, c, hc, rfl⟩⟩
  | typeVariable name upper lower ihu ihl =>
      simp only [resolvesTo_typeVariable_iff, wellFormed_typeVariable_iff]
      rw [← forall₂_congr ihu, ← forall₂_congr ihl, ← exists_forall₂_iff, ← exists_optionRel_iff]
      refine ⟨?_, ?_⟩
      · rintro ⟨_, hname, rs, l, hrs, hl, -⟩
        exact ⟨hname, ⟨rs, hrs⟩, l, hl⟩
      · rintro ⟨hname, ⟨rs, hrs⟩, l, hl⟩
        exact ⟨_, hname, rs, l, hrs, hl, rfl⟩
  | wildcard upper lower ihu ihl =>
      simp only [resolvesTo_wildcard_iff, wellFormed_wildcard_iff]
      rw [← forall₂_congr ihu, ← forall₂_congr ihl, ← exists_forall₂_iff, ← exists_optionRel_iff]
      refine ⟨?_, ?_⟩
      · rintro ⟨_, rs, l, hrs, hl, -⟩
        exact ⟨⟨rs, hrs⟩, l, hl⟩
      · rintro ⟨⟨rs, hrs⟩, l, hl⟩
        exact ⟨_, rs, l, hrs, hl, rfl⟩
  | intersection bounds _ =>
      refine iff_of_false (fun ⟨_, h⟩ => not_resolvesTo_intersection h) fun h => ?_
      cases (throughout_iff.mp h).1.1

/-! ## What it stands for -/

/-- The type under a number of array brackets. -/
def arrays : Nat → SourceType → SourceType
  | 0, t => t
  | n + 1, t => .array (arrays n t)

/-- The type is the root of the hierarchy, with or without arguments. -/
def isRoot : SourceType → Bool
  | .declared name _ => name = DeclaredName.root.qualified
  | _ => false

/--
The reference stands for the spelling, type by type: what is no array is paired
with a reference whose depth is the number of arrays around it, and which is no
varargs. An upper bound stands for its components without the root.
-/
inductive Denotes : SourceType → TypeRef → Prop where
  | primitive (n : Nat) {name : String} (hname : DeclaredName.isPrimitive ⟨"", name⟩ = true) :
      Denotes (arrays n (.primitive name)) (.declared ⟨"", name⟩ [] ⟨n, false⟩)
  | void (n : Nat) : Denotes (arrays n .void) (.declared .void [] ⟨n, false⟩)
  | declared (n : Nat) {name : String} {args : List SourceType} {read : DeclaredName}
      {args' : List TypeRef} (hname : DeclaredName.ofQualified name = .ok read)
      (hargs : List.Forall₂ Denotes args args') :
      Denotes (arrays n (.declared name args)) (.declared read args' ⟨n, false⟩)
  | typeVariable (n : Nat) (name : String) {upper lower : Option SourceType}
      {upper' : List TypeRef} {lower' : Option TypeRef}
      (hupper : List.Forall₂ Denotes ((components upper).filter (!·.isRoot)) upper')
      (hlower : Option.Rel Denotes lower lower') :
      Denotes (arrays n (.typeVariable name upper lower))
        (.param (.plain name) upper' lower' ⟨n, false⟩)
  | wildcard (n : Nat) {upper lower : Option SourceType} {upper' : List TypeRef}
      {lower' : Option TypeRef}
      (hupper : List.Forall₂ Denotes ((components upper).filter (!·.isRoot)) upper')
      (hlower : Option.Rel Denotes lower lower') :
      Denotes (arrays n (.wildcard upper lower))
        (.param (.plain TypeVar.wildcardName) upper' lower' ⟨n, false⟩)

end SourceType

/-- The reference is to the root of the hierarchy, and to no array of it. -/
def TypeRef.isPlainRoot (t : TypeRef) : Bool := t.refersToRoot && t.dims.depth = 0

namespace SourceType

theorem isRoot_arrays (n : Nat) (t : SourceType) :
    (arrays n t).isRoot = (t.isRoot && decide (n = 0)) := by
  cases n with
  | zero => exact (Bool.and_true _).symm
  | succ n => exact (Bool.and_false _).symm

theorem isPlainRoot_declared {name : DeclaredName} {args : List TypeRef} {dims : Dims} :
    (TypeRef.declared name args dims).isPlainRoot
      = (decide (name = .root) && decide (dims.depth = 0)) := by
  show (some name == some .root && _) = _
  rw [Option.some_beq_some, beq_eq_decide]
  rfl

theorem ofQualified_eq_root_iff {name : String} {read : DeclaredName}
    (h : DeclaredName.ofQualified name = .ok read) :
    read = .root ↔ name = DeclaredName.root.qualified := by
  have hroot : ∀ {text : String},
      DeclaredName.ofQualified text = .ok .root ↔ text = DeclaredName.root.qualified :=
    DeclaredName.ofQualified_eq_ok_iff_of_package (by decide) ⟨by decide, by decide⟩
  rw [← hroot, h, Except.ok.injEq]

namespace Denotes

variable {t : SourceType} {r : TypeRef}

/-- One more array around the type makes the reference deeper by one. -/
theorem array (h : Denotes t r) : Denotes (.array t) (r.withDepth (r.dims.depth + 1)) := by
  cases h with
  | primitive n hname => exact .primitive (n + 1) hname
  | void n => exact .void (n + 1)
  | declared n hname hargs => exact .declared (n + 1) hname hargs
  | typeVariable n name hupper hlower => exact .typeVariable (n + 1) name hupper hlower
  | wildcard n hupper hlower => exact .wildcard (n + 1) hupper hlower

/-- **A reference is to the plain root exactly if that is how it is spelled.** -/
theorem isPlainRoot_eq (h : Denotes t r) : r.isPlainRoot = t.isRoot := by
  cases h with
  | @primitive n name hname =>
      have hne : (⟨"", name⟩ : DeclaredName) ≠ .root := by
        intro he
        rw [he] at hname
        exact absurd hname (by decide)
      rw [isPlainRoot_declared, isRoot_arrays, decide_eq_false hne]
      rfl
  | void n =>
      rw [isPlainRoot_declared, isRoot_arrays, decide_eq_false (by decide)]
      rfl
  | declared n hname hargs =>
      rw [isPlainRoot_declared, isRoot_arrays, decide_eq_decide.mpr (ofQualified_eq_root_iff hname)]
      rfl
  | typeVariable n name hupper hlower =>
      rw [isRoot_arrays]
      rfl
  | wildcard n hupper hlower =>
      rw [isRoot_arrays]
      rfl

/-- What the components of an upper bound stand for, the root left out on both sides. -/
theorem forall₂_withoutRoot {ts : List SourceType} {rs : List TypeRef}
    (h : List.Forall₂ Denotes ts rs) :
    List.Forall₂ Denotes (ts.filter (!·.isRoot)) (withoutRoot rs) :=
  List.rel_filter (q := (!TypeRef.isPlainRoot ·)) (fun _ _ h => by simp only [h.isPlainRoot_eq]) h

/-- **Every reference in it stands for some spelling.** -/
theorem exists_of_mem_nodes (h : Denotes t r) {u : TypeRef} (hu : u ∈ r.nodes) :
    ∃ s, Denotes s u := by
  induction r generalizing t with
  | declared name args dims ih =>
      rcases TypeRef.mem_nodes_declared.mp hu with rfl | ⟨a, ha, hua⟩
      · exact ⟨t, h⟩
      · cases h with
        | primitive | void => exact absurd ha List.not_mem_nil
        | declared n hname hargs =>
            obtain ⟨s, -, hs⟩ := exists_rel_of_mem hargs ha
            exact ih a ha hs hua
  | param var upper lower dims ihu ihl =>
      rcases TypeRef.mem_nodes_param.mp hu with rfl | ⟨b, hb, hub⟩ | ⟨b, rfl, hub⟩
      · exact ⟨t, h⟩
      · cases h with
        | typeVariable n name hupper hlower | wildcard n hupper hlower =>
            obtain ⟨s, -, hs⟩ := exists_rel_of_mem hupper hb
            exact ihu b hb hs hub
      · cases h with
        | typeVariable n name hupper hlower | wildcard n hupper hlower =>
            cases hlower with
            | some hs => exact ihl b rfl hs hub

theorem varargs_eq_false (h : Denotes t r) : r.dims.varargs = false := by
  cases h with
  | _ => rfl

/-- No upper bound is the plain root. -/
theorem isPlainRoot_of_mem_upper (h : Denotes t r) {p : TypeParam} (hp : r.param? = some p)
    {b : TypeRef} (hb : b ∈ p.upper) : b.isPlainRoot = false := by
  cases h with
  | primitive | void | declared => cases hp
  | typeVariable n name hupper hlower | wildcard n hupper hlower =>
      cases hp
      obtain ⟨c, hc, hden⟩ := exists_rel_of_mem hupper hb
      rw [hden.isPlainRoot_eq]
      simpa using (List.mem_filter.mp hc).2

end Denotes

/-- **A resolved spelling stands for what it resolves to.** -/
theorem denotes_of_resolvesTo {t : SourceType} {r : TypeRef} (h : ResolvesTo t r) :
    Denotes t r := by
  induction t using inductOnComponents generalizing r with
  | primitive name =>
      obtain ⟨hname, rfl⟩ := resolvesTo_primitive_iff.mp h
      exact .primitive 0 hname
  | void =>
      obtain rfl := resolvesTo_void_iff.mp h
      exact .void 0
  | declared name args ih =>
      obtain ⟨n, rs, hn, hrs, rfl⟩ := resolvesTo_declared_iff.mp h
      exact .declared 0 hn (forall₂_imp_of_mem hrs fun a ha _ => ih a ha)
  | array component ih =>
      obtain ⟨c, hc, rfl⟩ := resolvesTo_array_iff.mp h
      exact (ih hc).array
  | typeVariable name upper lower ihu ihl =>
      obtain ⟨-, rs, l, hrs, hl, rfl⟩ := resolvesTo_typeVariable_iff.mp h
      exact .typeVariable 0 name
        (Denotes.forall₂_withoutRoot (forall₂_imp_of_mem hrs fun u hu _ => ihu u hu))
        (optionRel_imp_of_mem hl fun u hu _ => ihl u hu)
  | wildcard upper lower ihu ihl =>
      obtain ⟨rs, l, hrs, hl, rfl⟩ := resolvesTo_wildcard_iff.mp h
      exact .wildcard 0
        (Denotes.forall₂_withoutRoot (forall₂_imp_of_mem hrs fun u hu _ => ihu u hu))
        (optionRel_imp_of_mem hl fun u hu _ => ihl u hu)
  | intersection bounds _ => exact absurd h not_resolvesTo_intersection

/--
**Exactly the well-formed spellings are resolved**, to what they stand for: with the
arrays around each type as the depth of its reference, without varargs, and without
the plain root as an upper bound anywhere.
-/
theorem resolves_iff_wellFormed (t : SourceType) :
    ((∃ r, t.resolve = .ok r) ↔ t.WellFormed)
      ∧ ∀ r, t.resolve = .ok r →
          t.Denotes r ∧ (∀ u ∈ r.nodes, u.dims.varargs = false)
            ∧ ∀ u ∈ r.nodes, ∀ p, u.param? = some p → ∀ b ∈ p.upper, b.isPlainRoot = false := by
  refine ⟨exists_resolvesTo_iff t, fun r hr => ?_⟩
  have h : Denotes t r := denotes_of_resolvesTo hr
  refine ⟨h, fun u hu => ?_, fun u hu p hp b hb => ?_⟩
  · obtain ⟨s, hs⟩ := h.exists_of_mem_nodes hu
    exact hs.varargs_eq_false
  · obtain ⟨s, hs⟩ := h.exists_of_mem_nodes hu
    exact hs.isPlainRoot_of_mem_upper hp hb

/-- An array of `T`, where `T extends Object & Comparable<? super int[][]>`. -/
def boundedElements : SourceType :=
  .array (.typeVariable "T"
    (some (.intersection [.declared "java.lang.Object" [],
      .declared "java.lang.Comparable"
        [.wildcard none (some (.array (.array (.primitive "int"))))]]))
    none)

/-- What `boundedElements` resolves to. -/
def boundedReference : TypeRef :=
  .param (.plain "T")
    [.declared ⟨languagePackage, "Comparable"⟩
      [.param (.plain "?") [] (some (.declared ⟨"", "int"⟩ [] ⟨2, false⟩)) .scalar] .scalar]
    none ⟨1, false⟩

theorem resolve_boundedElements : boundedElements.resolve = .ok boundedReference := by
  decide +kernel

theorem resolves_iff_wellFormed_boundedElements :
    ∃ r, boundedElements.resolve = .ok r ∧ boundedElements.WellFormed ∧ boundedElements.Denotes r
      ∧ (∀ u ∈ r.nodes, u.dims.varargs = false)
      ∧ r.nodes.map (fun u => (u.text, u.dims.depth))
          = [("T[]", 1), ("java.lang.Comparable<? super int[][]>", 0), ("? super int[][]", 0),
            ("int[][]", 2)] := by
  obtain ⟨hiff, hall⟩ := resolves_iff_wellFormed boundedElements
  obtain ⟨hdenotes, hvarargs, -⟩ := hall _ resolve_boundedElements
  exact ⟨_, resolve_boundedElements, hiff.mp ⟨_, resolve_boundedElements⟩, hdenotes, hvarargs,
    by decide +kernel⟩

end SourceType

end TraitWeaver
