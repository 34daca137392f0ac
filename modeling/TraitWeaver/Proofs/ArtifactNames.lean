import TraitWeaver.Proofs.FileCount
import TraitWeaver.Proofs.TraitResolution

/-!
# Names of generated types

A generated type lives in the package of the declaration that it is generated for.
Its simple name is put together from two texts, one of which is the simple name of
the declaration and the other one of the options. Valid options contain no dot, so
two such types are named alike exactly if package and simple name are the same.

Of types of one *sort*, the text from the options cancels, and the declarations would
have to be named alike. Types of different sorts have no text in common. Then what is
put together can be taken apart in another place: with the options that hold by
default, `AbstractPersonTrait` is the interface of `AbstractPerson` as well as the
superclass of `PersonTrait`. Nothing looks for that, as nothing looks for declarations
that have such a name.
-/

namespace TraitWeaver

/-! ## Texts put together -/

namespace Text

/-- The first part of one text goes on into the second part of the other: what is between them can
be read as the end of the one and as the beginning of the other. -/
def Straddle (x y x' y' : String) : Prop :=
  (∃ between : String, x' = x ++ between ∧ y = between ++ y')
    ∨ ∃ between : String, x = x' ++ between ∧ y' = between ++ y

theorem append_eq_append_iff_straddle {x y x' y' : String} :
    x ++ y = x' ++ y' ↔ Straddle x y x' y' := by
  refine ⟨fun h => ?_, ?_⟩
  · have hchars : x.toList ++ y.toList = x'.toList ++ y'.toList := by
      rw [← String.toList_append, h, String.toList_append]
    rcases List.append_eq_append_iff.mp hchars with ⟨between, hx, hy⟩ | ⟨between, hx, hy⟩
    · refine Or.inl ⟨String.ofList between, String.toList_injective ?_, String.toList_injective ?_⟩
      · rw [hx, String.toList_append, String.toList_ofList]
      · rw [hy, String.toList_append, String.toList_ofList]
    · refine Or.inr ⟨String.ofList between, String.toList_injective ?_, String.toList_injective ?_⟩
      · rw [hx, String.toList_append, String.toList_ofList]
      · rw [hy, String.toList_append, String.toList_ofList]
  · rintro (⟨between, rfl, rfl⟩ | ⟨between, rfl, rfl⟩)
    · rw [String.append_assoc]
    · rw [String.append_assoc]

end Text

namespace DeclaredName

theorem IsSimple.append {x y : String} (hx : IsSimple x) (hy : IsSimple y) : IsSimple (x ++ y) := by
  refine ⟨fun h => hx.1 (String.append_eq_empty_iff.mp h).1, ?_⟩
  rw [String.toList_append, List.mem_append, not_or]
  exact ⟨hx.2, hy.2⟩

/-- An identifier has no dot, nor has a part of one. -/
theorem isSimple_of_isFragment {s : String} (h : Text.IsFragment s) : IsSimple s := by
  refine ⟨h.1, fun hdot => ?_⟩
  have hpart := Text.isIdentifierPart_iff.mpr (h.2 '.' hdot)
  revert hpart
  decide +kernel

theorem eq_iff {m n : DeclaredName} : m = n ↔ m.package = n.package ∧ m.simple = n.simple := by
  cases m
  cases n
  exact DeclaredName.mk.injEq .. ▸ Iff.rfl

/-- Names in full are read back, so they differ if anything does. -/
theorem qualified_inj {m n : DeclaredName} (hm : IsSimple m.simple) (hn : IsSimple n.simple) :
    m.qualified = n.qualified ↔ m = n := by
  refine ⟨fun h => ?_, congrArg qualified⟩
  have hread := ofQualified_qualified hm
  rw [h, ofQualified_qualified hn] at hread
  exact (Except.ok.inj hread).symm

end DeclaredName

/-! ## Valid options -/

namespace Config

open DeclaredName

/-- What is put before or behind the name of a declaration, as valid options have it. -/
structure Affixed (c : Config) : Prop where
  interface : IsSimple c.interfaceSuffix
  delegate : IsSimple c.delegateSuffix
  superclass : IsSimple c.superclassPrefix
  ne : c.interfaceSuffix ≠ c.delegateSuffix

theorem affixed_of_validate {c : Config} (h : c.validate = .ok ()) : c.Affixed := by
  have hvalid := validate_eq_ok_iff.mp h
  exact ⟨isSimple_of_isFragment hvalid.interfaceSuffix,
    isSimple_of_isFragment hvalid.delegateSuffix,
    isSimple_of_isFragment hvalid.superclassPrefix.isFragment, hvalid.suffixes_ne⟩

end Config

/-! ## Generated types -/

/-- The host is what a declaration resolves to. -/
def Host.IsResolved (h : Host) : Prop :=
  ∃ (d : HostDecl) (index : TraitIndex), (d.resolve index).1 = .ok h

/-- What a type is generated as. -/
inductive ArtifactSort where
  | interface
  | delegate
  | superclass
deriving DecidableEq, Repr

/-- A type that is generated for a trait or a host. -/
inductive Artifact where
  | interface (t : Trait)
  | delegate (t : Trait)
  | superclass (h : Host)

namespace Artifact

def sort : Artifact → ArtifactSort
  | .interface _ => .interface
  | .delegate _ => .delegate
  | .superclass _ => .superclass

/-- What the type is generated for. -/
def origin : Artifact → Trait ⊕ Host
  | .interface t => .inl t
  | .delegate t => .inl t
  | .superclass h => .inr h

/-- The name of what the type is generated for. -/
def declared : Artifact → DeclaredName
  | .interface t => t.name
  | .delegate t => t.name
  | .superclass h => h.name

def unit (c : Config) : Artifact → CompilationUnit
  | .interface t => t.interfaceFile c
  | .delegate t => t.delegateFile c
  | .superclass h => h.superclassFile c

def qualifiedName (c : Config) (a : Artifact) : String := (a.unit c).name.qualified

/-- The first of the two texts that make the simple name. -/
def front (c : Config) : Artifact → String
  | .interface t => t.name.simple
  | .delegate t => t.name.simple
  | .superclass _ => c.superclassPrefix

/-- The second of the two texts that make the simple name. -/
def back (c : Config) : Artifact → String
  | .interface _ => c.interfaceSuffix
  | .delegate _ => c.delegateSuffix
  | .superclass h => h.name.simple

/-- The types that are generated for traits and hosts. -/
def all (ts : List Trait) (hs : List Host) : List Artifact :=
  ts.map .interface ++ ts.map .delegate ++ hs.map .superclass

/-- The names that traits and hosts are declared under. -/
def allDeclared (ts : List Trait) (hs : List Host) : List DeclaredName :=
  ts.map (·.name) ++ hs.map (·.name)

/-- Two types of different sorts are generated for different declarations of one package, and the
first part of one simple name goes on into the second part of the other. -/
structure Straddles (c : Config) (a b : Artifact) : Prop where
  package : a.declared.package = b.declared.package
  sort : a.sort ≠ b.sort
  origin : a.origin ≠ b.origin
  parts : Text.Straddle (a.front c) (a.back c) (b.front c) (b.back c)

variable {c : Config} {a b : Artifact}

theorem name_unit (c : Config) (a : Artifact) :
    (a.unit c).name = ⟨a.declared.package, a.front c ++ a.back c⟩ := by
  cases a <;> rfl

theorem isSimple_name_unit (hc : c.Affixed) (ha : DeclaredName.IsSimple a.declared.simple) :
    DeclaredName.IsSimple (a.unit c).name.simple := by
  rw [name_unit]
  cases a with
  | interface t => exact ha.append hc.interface
  | delegate t => exact ha.append hc.delegate
  | superclass h => exact hc.superclass.append ha

/-- Of one sort, the text from the options cancels. -/
theorem simple_eq_of_sort_eq :
    ∀ {a b : Artifact}, a.sort = b.sort → a.front c ++ a.back c = b.front c ++ b.back c →
      a.declared.simple = b.declared.simple
  | .interface _, .interface _, _, h => (String.append_left_inj c.interfaceSuffix).mp h
  | .delegate _, .delegate _, _, h => (String.append_left_inj c.delegateSuffix).mp h
  | .superclass _, .superclass _, _, h => (String.append_right_inj c.superclassPrefix).mp h

/-- For one declaration, no two sorts of types are named alike. -/
theorem sort_eq_of_origin_eq (hc : c.Affixed) :
    ∀ {a b : Artifact}, a.origin = b.origin → a.front c ++ a.back c = b.front c ++ b.back c →
      a.sort = b.sort
  | .interface _, .interface _, _, _ => rfl
  | .delegate _, .delegate _, _, _ => rfl
  | .superclass _, .superclass _, _, _ => rfl
  | .interface t, .delegate u, horigin, h => by
      rw [show t = u from Sum.inl.inj horigin] at h
      exact absurd ((String.append_right_inj u.name.simple).mp h) hc.ne
  | .delegate t, .interface u, horigin, h => by
      rw [show t = u from Sum.inl.inj horigin] at h
      exact absurd ((String.append_right_inj u.name.simple).mp h).symm hc.ne

/-- No type is named like what it is generated for. -/
theorem name_unit_ne_declared (hc : c.Affixed) (a : Artifact) : (a.unit c).name ≠ a.declared := by
  intro h
  have hsimple : a.front c ++ a.back c = a.declared.simple := by
    rw [← h, name_unit]
  cases a with
  | interface t => exact hc.interface.1 (String.append_eq_left_iff.mp hsimple)
  | delegate t => exact hc.delegate.1 (String.append_eq_left_iff.mp hsimple)
  | superclass h => exact hc.superclass.1 (String.append_eq_right_iff.mp hsimple)

/-- **Types of different sorts, or of differently named declarations, are named alike exactly if they
straddle.** -/
theorem qualifiedName_eq_iff_straddles (hc : c.Affixed)
    (ha : DeclaredName.IsSimple a.declared.simple) (hb : DeclaredName.IsSimple b.declared.simple)
    (hne : a.sort = b.sort → a.declared ≠ b.declared) :
    a.qualifiedName c = b.qualifiedName c ↔ a.Straddles c b := by
  unfold qualifiedName
  rw [DeclaredName.qualified_inj (isSimple_name_unit hc ha) (isSimple_name_unit hc hb), name_unit,
    name_unit, DeclaredName.eq_iff]
  refine ⟨?_, fun h => ⟨h.package, Text.append_eq_append_iff_straddle.mpr h.parts⟩⟩
  rintro ⟨hpackage, hsimple⟩
  have hsort : a.sort ≠ b.sort := fun hsort =>
    hne hsort (DeclaredName.eq_iff.mpr ⟨hpackage, simple_eq_of_sort_eq hsort hsimple⟩)
  have horigin : a.origin ≠ b.origin := fun horigin =>
    hsort (sort_eq_of_origin_eq hc horigin hsimple)
  exact ⟨hpackage, hsort, horigin, Text.append_eq_append_iff_straddle.mp hsimple⟩

/-- A type and a declaration are named alike exactly if they are in one package and the two texts
put together are the simple name of the declaration. -/
theorem qualifiedName_eq_iff_of_declared (hc : c.Affixed)
    (ha : DeclaredName.IsSimple a.declared.simple) {n : DeclaredName}
    (hn : DeclaredName.IsSimple n.simple) :
    a.qualifiedName c = n.qualified ↔
      a.declared.package = n.package ∧ a.front c ++ a.back c = n.simple := by
  unfold qualifiedName
  rw [DeclaredName.qualified_inj (isSimple_name_unit hc ha) hn, name_unit, DeclaredName.eq_iff]

/-! ## All of them -/

variable {ts : List Trait} {hs : List Host}

/-- How far the names of generated types are kept apart. -/
structure NamedApart (c : Config) (ts : List Trait) (hs : List Host) : Prop where
  /-- Two generated types share a name exactly if they straddle. -/
  each : (all ts hs).Pairwise fun a b => a.qualifiedName c = b.qualifiedName c ↔ a.Straddles c b
  /-- A generated type has the name of a declaration exactly if it is put together to it. -/
  declared : ∀ a ∈ all ts hs, ∀ n ∈ allDeclared ts hs,
    (a.qualifiedName c = n.qualified ↔
      a.declared.package = n.package ∧ a.front c ++ a.back c = n.simple)
  /-- Nothing is generated under the name of what it is generated for. -/
  own : ∀ a ∈ all ts hs, a.qualifiedName c ≠ a.declared.qualified

theorem declared_mem_allDeclared (h : a ∈ all ts hs) : a.declared ∈ allDeclared ts hs := by
  unfold all at h
  unfold allDeclared
  rcases List.mem_append.mp h with h | h
  · refine List.mem_append_left _ ?_
    rcases List.mem_append.mp h with h | h
    · obtain ⟨t, ht, rfl⟩ := List.mem_map.mp h
      exact List.mem_map_of_mem ht
    · obtain ⟨t, ht, rfl⟩ := List.mem_map.mp h
      exact List.mem_map_of_mem ht
  · obtain ⟨host, hhost, rfl⟩ := List.mem_map.mp h
    exact List.mem_append_right _ (List.mem_map_of_mem hhost)

theorem isSimple_of_mem_allDeclared (hts : ∀ t ∈ ts, t.IsResolved) (hhs : ∀ h ∈ hs, h.IsResolved)
    {n : DeclaredName} (hn : n ∈ allDeclared ts hs) : DeclaredName.IsSimple n.simple := by
  rcases List.mem_append.mp hn with hn | hn
  · obtain ⟨t, ht, rfl⟩ := List.mem_map.mp hn
    obtain ⟨d, c, ds, hr⟩ := hts t ht
    exact DeclaredName.isSimple_of_ofQualified (TraitDecl.ofQualified_of_resolve hr)
  · obtain ⟨h, hh, rfl⟩ := List.mem_map.mp hn
    obtain ⟨d, index, hr⟩ := hhs h hh
    obtain ⟨name, _, _, _, hname, -, -, -, -, rfl⟩ := HostDecl.resolve_eq_ok_iff.mp hr
    exact DeclaredName.isSimple_of_ofQualified hname

/-- Where nothing is declared twice, types of one sort are for differently named declarations. -/
theorem pairwise_declared_ne (hts : Trait.Distinct ts) (hhs : (hs.map (·.qualifiedName)).Nodup) :
    (all ts hs).Pairwise fun a b => a.sort = b.sort → a.declared ≠ b.declared := by
  unfold all
  refine List.pairwise_append.mpr ⟨List.pairwise_append.mpr ⟨?_, ?_, ?_⟩, ?_, ?_⟩
  · refine List.pairwise_map.mpr ((List.pairwise_map.mp hts).imp ?_)
    exact fun hne _ he => hne (congrArg DeclaredName.qualified he)
  · refine List.pairwise_map.mpr ((List.pairwise_map.mp hts).imp ?_)
    exact fun hne _ he => hne (congrArg DeclaredName.qualified he)
  · intro a ha b hb hsort
    obtain ⟨t, -, rfl⟩ := List.mem_map.mp ha
    obtain ⟨u, -, rfl⟩ := List.mem_map.mp hb
    cases hsort
  · refine List.pairwise_map.mpr ((List.pairwise_map.mp hhs).imp ?_)
    exact fun hne _ he => hne (congrArg DeclaredName.qualified he)
  · intro a ha b hb hsort
    obtain ⟨h, -, rfl⟩ := List.mem_map.mp hb
    rcases List.mem_append.mp ha with ha | ha
    · obtain ⟨t, -, rfl⟩ := List.mem_map.mp ha
      cases hsort
    · obtain ⟨t, -, rfl⟩ := List.mem_map.mp ha
      cases hsort

/-- **Under valid options, generated types of one sort have different names, and so have the
interface and the delegate of a trait. All that share a name straddle.** -/
theorem namedApart_all (hc : c.validate = .ok ()) (hts : ∀ t ∈ ts, t.IsResolved)
    (hdistinct : Trait.Distinct ts) (hhs : ∀ h ∈ hs, h.IsResolved)
    (hnodup : (hs.map (·.qualifiedName)).Nodup) : NamedApart c ts hs := by
  have haffixed := Config.affixed_of_validate hc
  have hsimple : ∀ a ∈ all ts hs, DeclaredName.IsSimple a.declared.simple := fun a ha =>
    isSimple_of_mem_allDeclared hts hhs (declared_mem_allDeclared ha)
  refine ⟨?_, ?_, ?_⟩
  · refine (pairwise_declared_ne hdistinct hnodup).imp_of_mem ?_
    intro a b ha hb hne
    exact qualifiedName_eq_iff_straddles haffixed (hsimple a ha) (hsimple b hb) hne
  · intro a ha n hn
    exact qualifiedName_eq_iff_of_declared haffixed (hsimple a ha)
      (isSimple_of_mem_allDeclared hts hhs hn)
  · intro a ha he
    unfold qualifiedName at he
    rw [DeclaredName.qualified_inj (isSimple_name_unit haffixed (hsimple a ha)) (hsimple a ha)]
      at he
    exact name_unit_ne_declared haffixed a he

/-! ## People who greet -/

/-- Traits of which one is called like the interface of another. -/
def greeters : List Trait :=
  ["Greeter", "GreeterTrait", "AbstractPerson"].map fun simple =>
    ⟨⟨⟨"lib", simple⟩, []⟩, simple, [], [], [], []⟩

/-- A host whose superclass is called like the interface of the last trait. -/
def personTrait : Host := ⟨⟨"lib", "PersonTrait"⟩, greeters.take 1, none, .empty⟩

theorem isResolved_greeters : ∀ t ∈ greeters, t.IsResolved := by
  have hresolve : ∀ t ∈ greeters,
      TraitDecl.resolve ⟨t.qualifiedName, [], none, [], []⟩ .default = .ok (t, []) := by
    decide +kernel
  exact fun t ht => ⟨_, _, _, hresolve t ht⟩

theorem isResolved_personTrait : ∀ h ∈ [personTrait], h.IsResolved := by
  have hresolve : (HostDecl.resolve ⟨"lib.PersonTrait", ["lib.Greeter"], none, []⟩
      (.ofList greeters)).1.toOption = some personTrait := by
    decide +kernel
  exact List.forall_mem_singleton.mpr ⟨_, _, toOption_eq_some_iff.mp hresolve⟩

/-- Of the artifacts of the greeters and the host, two have one name, and they straddle. -/
theorem namedApart_greeters :
    NamedApart .default greeters [personTrait]
      ∧ ((all greeters [personTrait]).map (·.qualifiedName .default)).count
          "lib.AbstractPersonTrait" = 2 := by
  have hvalid : Config.default.validate = .ok () := by decide +kernel
  have hdistinct : Trait.Distinct greeters := by
    unfold Trait.Distinct
    decide +kernel
  exact ⟨namedApart_all hvalid isResolved_greeters hdistinct isResolved_personTrait
    (List.nodup_singleton _), by decide +kernel⟩

/-- What is generated may share a name, and it may have the name of something declared. -/
theorem not_forall_names_apart :
    (¬∀ (c : Config) (ts : List Trait) (hs : List Host), c.validate = .ok () →
        (∀ t ∈ ts, t.IsResolved) → Trait.Distinct ts → (∀ h ∈ hs, h.IsResolved) →
        (hs.map (·.qualifiedName)).Nodup → ((all ts hs).map (·.qualifiedName c)).Nodup)
      ∧ ¬∀ (c : Config) (ts : List Trait) (hs : List Host), c.validate = .ok () →
        (∀ t ∈ ts, t.IsResolved) → Trait.Distinct ts → (∀ h ∈ hs, h.IsResolved) →
        (hs.map (·.qualifiedName)).Nodup →
        ∀ a ∈ all ts hs, ∀ n ∈ allDeclared ts hs, a.qualifiedName c ≠ n.qualified := by
  have hvalid : Config.default.validate = .ok () := by decide +kernel
  have hdistinct : Trait.Distinct greeters := by
    unfold Trait.Distinct
    decide +kernel
  refine ⟨fun hall => ?_, fun hall => ?_⟩
  · have hnodup := hall .default greeters [personTrait] hvalid isResolved_greeters hdistinct
      isResolved_personTrait (List.nodup_singleton _)
    revert hnodup
    decide +kernel
  · have hne := hall .default greeters [] hvalid isResolved_greeters hdistinct
      (fun _ h => absurd h List.not_mem_nil) List.nodup_nil
      (.interface ⟨⟨⟨"lib", "Greeter"⟩, []⟩, "Greeter", [], [], [], []⟩) List.mem_cons_self
      ⟨"lib", "GreeterTrait"⟩ (by decide +kernel)
    revert hne
    decide +kernel

end Artifact

end TraitWeaver
