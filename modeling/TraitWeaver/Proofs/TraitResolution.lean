import TraitWeaver.Proofs.Lookup
import TraitWeaver.Proofs.MemberGains
import TraitWeaver.Round

/-!
# What a resolved trait is made of

`TraitDecl.resolve` takes a declaration apart in two loops that report and go on,
so its result says nothing about how it came about. Where all that one turn of them can
add (`TraitContext.Gains`) is from is said once (`TraitParts.Step`), and by that every
part of a resolved trait gets its origin:

* a **parameter** is the declared one, under the trait's qualifier and with its
  bounds in the trait's terms;
* a **method** is one that the trait declares, or one of an interface that it
  implements, with the interface's parameters replaced;
* a **constant** is a public, static and final field.

Later modules argue about origins and never look at the loops again.
-/

namespace TraitWeaver

/-! ## Members -/

/-- **What one member or interface can add** to the parts of a trait. Whatever it is, something may
be reported. -/
inductive TraitParts.Step (d : TraitDecl) (q : String) (before : TraitParts) : TraitParts → Prop where
  | nothing (ds : List Diagnostic) : Step d q before { before with diagnostics := ds }
  /-- A method that the trait declares. It is the self accessor only if there was none. -/
  | method (ds : List Diagnostic) (decl : MethodDecl) (m : TraitMethod) :
      .method decl ∈ d.members → decl.Resolves q [] m → m.inheritedFrom = none →
      (m.kind = .selfAccessor → before.hasAccessor = false) →
      Step d q before { before with methods := before.methods ++ [m], diagnostics := ds }
  | constant (f : FieldDecl) (k : TraitConstant) :
      .field f ∈ d.members → f.has .public → f.has .static → f.has .final →
      f.type.resolve = .ok k.type →
      Step d q before { before with constants := before.constants ++ [k] }
  /-- An interface with methods that come with it. -/
  | interface (i : InterfaceDecl) (ti : TraitInterface) (ms new : List TraitMethod) :
      i ∈ d.interfaces → i.resolveIn q = .ok (ti, ms) → new ⊆ ms →
      Step d q before
        { before with methods := before.methods ++ new, interfaces := before.interfaces ++ [ti] }

namespace TraitContext

open TraitParts

variable {d : TraitDecl} {c : TraitContext} {before gain : TraitParts}

/-- A method is declared, whatever kind it gets. -/
theorem step_append_ofMethod {decl : MethodDecl} {m : TraitMethod} {kind : MethodKind}
    (hdecl : .method decl ∈ d.members) (hm : decl.resolveIn c.qualifier [] = .ok m)
    (hkind : kind = .selfAccessor → before.hasAccessor = false) (ds : List Diagnostic) :
    Step d c.qualifier before (before.append (.ofMethod { m with kind } ds)) := by
  obtain ⟨hres, horigin⟩ := MethodDecl.resolves_of_resolveIn hm
  have hdeclared : decl.Resolves c.qualifier [] { m with kind } :=
    ⟨hres.typeParams, hres.params, hres.throws, hres.returns⟩
  simpa [append, ofMethod] using
    Step.method (before.diagnostics ++ ds) decl _ hdecl hdeclared horigin hkind

theorem step_append_ofReport (x : Diagnostic) :
    Step d c.qualifier before (before.append (.ofReport x)) := by
  have hstep : Step d c.qualifier before
      { before with diagnostics := before.diagnostics ++ [x] } := .nothing _
  simpa [append, ofReport] using hstep

/-- What a member adds is one of the steps. -/
theorem Gains.step {member : MemberDecl} (hmember : member ∈ d.members)
    (h : c.Gains before.hasAccessor member gain) : Step d c.qualifier before (before.append gain) := by
  cases h with
  | skipped _ _ _ => exact step_append_ofReport _
  | @ordinary decl _ _ hm _ =>
      exact step_append_ofMethod hmember hm (fun hk => absurd hk decl.ordinaryKind_ne) []
  | @refused decl _ x _ hm _ _ _ _ =>
      exact step_append_ofMethod hmember hm (fun hk => absurd hk decl.ordinaryKind_ne) [x]
  | accessor _ hm _ hfirst => exact step_append_ofMethod hmember hm (fun _ => hfirst) []
  | @constant f type hkept htype =>
      have hconst : f.has .public = true ∧ f.has .static = true ∧ f.has .final = true := by
        simp only [MemberDecl.isSkipped, Bool.not_eq_false', Bool.and_eq_true] at hkept
        exact ⟨hkept.1.1.1, hkept.1.1.2, hkept.1.2⟩
      have hstep : Step d c.qualifier before
          { before with constants := before.constants ++ [⟨f.name, type⟩] } :=
        .constant f ⟨f.name, type⟩ hmember hconst.1 hconst.2.1 hconst.2.2 htype
      simpa [append] using hstep
  | constructor =>
      rw [append_empty]
      exact .nothing before.diagnostics

theorem InterfaceGains.step {i : InterfaceDecl} (hi : i ∈ d.interfaces)
    (h : c.InterfaceGains before.methods i gain) :
    Step d c.qualifier before (before.append gain) := by
  cases h with
  | skipped _ _ _ => exact step_append_ofReport _
  | @accepted ti ms new hr hnew =>
      have hstep : Step d c.qualifier before
          { before with
            methods := before.methods ++ new
            interfaces := before.interfaces ++ [ti] } :=
        .interface i ti ms new hi hr hnew.sublist.subset
      simpa [append] using hstep

/-- **A member adds nothing but itself.** -/
theorem step_addMember (c : TraitContext) (parts : TraitParts) {member : MemberDecl}
    (hmember : member ∈ d.members) : Step d c.qualifier parts (c.addMember parts member) := by
  obtain ⟨gain, hgains, hadd⟩ := c.exists_addMember_eq parts member
  rw [hadd]
  exact hgains.step hmember

/-- **An interface adds itself and methods that come with it.** -/
theorem step_addInterface (c : TraitContext) (parts : TraitParts) {i : InterfaceDecl}
    (hi : i ∈ d.interfaces) : Step d c.qualifier parts (c.addInterface parts i) := by
  obtain ⟨gain, hgains, hadd⟩ := c.exists_addInterface_eq parts i
  rw [hadd]
  exact hgains.step hi

end TraitContext

/-- **What every step preserves holds of all that is made of a declaration.** -/
theorem TraitDecl.parts_induction {motive : TraitParts → Prop} (d : TraitDecl) (c : TraitContext)
    (empty : motive .empty)
    (step : ∀ {before after}, motive before → TraitParts.Step d c.qualifier before after →
      motive after) : motive (d.parts c) := by
  have hmembers : motive (d.members.foldl c.addMember .empty) :=
    List.foldlRecOn d.members c.addMember empty fun _ h _ hmember =>
      step h (c.step_addMember _ hmember)
  exact List.foldlRecOn d.interfaces c.addInterface hmembers fun _ h _ hi =>
    step h (c.step_addInterface _ hi)

/-- Where the methods, constants and interfaces that have been collected come from. -/
structure TraitParts.From (parts : TraitParts) (d : TraitDecl) (q : String) : Prop where
  /-- A method is declared by the trait, or an interface brings it along. -/
  methods : ∀ m ∈ parts.methods,
    (∃ decl, .method decl ∈ d.members ∧ decl.Resolves q [] m ∧ m.inheritedFrom = none)
      ∨ ∃ i ∈ d.interfaces, ∃ ti ms, i.resolveIn q = .ok (ti, ms) ∧ m ∈ ms
  constants : ∀ k ∈ parts.constants, ∃ f, .field f ∈ d.members
    ∧ f.has .public ∧ f.has .static ∧ f.has .final ∧ f.type.resolve = .ok k.type
  interfaces : ∀ ti ∈ parts.interfaces, ∃ i ∈ d.interfaces, ∃ ms, i.resolveIn q = .ok (ti, ms)

namespace TraitParts.From

variable {before after : TraitParts} {d : TraitDecl} {q : String}

theorem empty : TraitParts.empty.From d q where
  methods := fun _ hm => absurd hm List.not_mem_nil
  constants := fun _ hk => absurd hk List.not_mem_nil
  interfaces := fun _ hi => absurd hi List.not_mem_nil

theorem step (h : before.From d q) (hstep : Step d q before after) : after.From d q := by
  cases hstep with
  | nothing ds => exact ⟨h.methods, h.constants, h.interfaces⟩
  | method ds decl m hdecl hres horigin =>
      refine ⟨List.forall_mem_append.mpr ⟨h.methods, List.forall_mem_singleton.mpr ?_⟩,
        h.constants, h.interfaces⟩
      exact Or.inl ⟨decl, hdecl, hres, horigin⟩
  | constant f k hf hpublic hstatic hfinal htype =>
      refine ⟨h.methods, List.forall_mem_append.mpr ⟨h.constants, List.forall_mem_singleton.mpr ?_⟩,
        h.interfaces⟩
      exact ⟨f, hf, hpublic, hstatic, hfinal, htype⟩
  | interface i ti ms new hi hr hsub =>
      refine ⟨List.forall_mem_append.mpr ⟨h.methods, fun m hm => ?_⟩, h.constants,
        List.forall_mem_append.mpr ⟨h.interfaces, List.forall_mem_singleton.mpr ⟨i, hi, ms, hr⟩⟩⟩
      exact Or.inr ⟨i, hi, ti, ms, hr, hsub hm⟩

end TraitParts.From

/-! ## The trait -/

/-- The trait that a declaration stands for. -/
structure TraitDecl.Resolves (d : TraitDecl) (t : Trait) : Prop where
  typeParams : List.Forall₂ (fun p p' => p.resolveIn t.qualifier [] = .ok p') d.typeParams
    t.typeParams
  /-- The trait is its own class with its own parameters for arguments. -/
  args : t.type.args = t.typeParams.map (·.withoutBounds.toRef)
  parts : TraitParts.From ⟨t.methods, t.constants, t.interfaces, []⟩ d t.qualifier

namespace TraitDecl

variable {d : TraitDecl} {config : Config} {t : Trait} {ds : List Diagnostic}

/-- **A resolved trait** has the name that it was declared under, its parameters and what was made of
its members and interfaces. No member and no interface has a part in whether there is one. -/
theorem resolve_eq_ok_iff : d.resolve config = .ok (t, ds) ↔
    ∃ name typeParams, DeclaredName.ofQualified d.name = .ok name
      ∧ d.requireRootSuperclass = .ok ()
      ∧ List.Forall₂ (fun p p' => p.resolveIn name.simple [] = .ok p') d.typeParams typeParams
      ∧ t = { type := ⟨name, typeParams.map (·.withoutBounds.toRef)⟩
              qualifier := name.simple
              typeParams
              methods := (d.parts (d.context config name)).methods
              constants := (d.parts (d.context config name)).constants
              interfaces := (d.parts (d.context config name)).interfaces }
      ∧ ds = (d.parts (d.context config name)).diagnostics := by
  unfold resolve
  refine ⟨?_, ?_⟩
  · intro h
    obtain ⟨name, hname, h⟩ := bind_eq_ok.mp h
    obtain ⟨⟨⟩, hsuperclass, h⟩ := bind_eq_ok.mp h
    obtain ⟨typeParams, htypeParams, h⟩ := bind_eq_ok.mp h
    obtain ⟨rfl, rfl⟩ := Prod.mk.inj (pure_eq_ok.mp h)
    exact ⟨name, typeParams, mapError_eq_ok.mp hname, hsuperclass,
      mapM_eq_ok_iff.mp (mapError_eq_ok.mp htypeParams), rfl, rfl⟩
  · rintro ⟨name, typeParams, hname, hsuperclass, htypeParams, rfl, rfl⟩
    refine bind_eq_ok.mpr ⟨name, mapError_eq_ok.mpr hname, ?_⟩
    refine bind_eq_ok.mpr ⟨(), hsuperclass, ?_⟩
    exact bind_eq_ok.mpr
      ⟨typeParams, mapError_eq_ok.mpr (mapM_eq_ok_iff.mpr htypeParams), rfl⟩

theorem exists_of_resolve (h : d.resolve config = .ok (t, ds)) :
    ∃ name typeParams, DeclaredName.ofQualified d.name = .ok name
      ∧ List.Forall₂ (fun p p' => p.resolveIn name.simple [] = .ok p') d.typeParams typeParams
      ∧ t = { type := ⟨name, typeParams.map (·.withoutBounds.toRef)⟩
              qualifier := name.simple
              typeParams
              methods := (d.parts (d.context config name)).methods
              constants := (d.parts (d.context config name)).constants
              interfaces := (d.parts (d.context config name)).interfaces } := by
  obtain ⟨name, typeParams, hname, -, htypeParams, ht, -⟩ := resolve_eq_ok_iff.mp h
  exact ⟨name, typeParams, hname, htypeParams, ht⟩

theorem ofQualified_of_resolve (h : d.resolve config = .ok (t, ds)) :
    DeclaredName.ofQualified d.name = .ok t.name := by
  obtain ⟨name, typeParams, hname, -, rfl⟩ := exists_of_resolve h
  exact hname

theorem qualifier_of_resolve (h : d.resolve config = .ok (t, ds)) :
    t.qualifier = t.name.simple := by
  obtain ⟨name, typeParams, -, -, rfl⟩ := exists_of_resolve h
  rfl

/-- **Every part of a resolved trait comes from its declaration.** -/
theorem resolves_of_resolve (h : d.resolve config = .ok (t, ds)) : d.Resolves t := by
  obtain ⟨name, typeParams, -, htypeParams, rfl⟩ := exists_of_resolve h
  have hparts : (d.parts (d.context config name)).From d name.simple :=
    d.parts_induction (motive := (·.From d name.simple)) (d.context config name) .empty
      fun h hstep => h.step hstep
  exact ⟨htypeParams, rfl, ⟨hparts.methods, hparts.constants, hparts.interfaces⟩⟩

end TraitDecl

/-! ## The traits of a round -/

namespace Declarations

theorem mem_traits_addTrait {config : Config} {state : TraitIndex × RoundResult} {d : TraitDecl}
    {t : Trait} (ht : t ∈ (addTrait config state d).1.traits) :
    (∃ ds, d.resolve config = .ok (t, ds)) ∨ t ∈ state.1.traits := by
  unfold addTrait at ht
  dsimp only at ht
  split at ht
  · exact Or.inr ht
  · next t' ds hr =>
    split at ht
    · exact Or.inr ht
    · rcases TraitIndex.mem_traits_insert ht with rfl | ht
      · exact Or.inl ⟨ds, hr⟩
      · exact Or.inr ht

/-- **A round knows no trait but those that it was given a declaration of.** -/
theorem exists_resolve_of_mem_checkTraits {d : Declarations} {config : Config} {t : Trait}
    (ht : t ∈ (d.checkTraits config).1.traits) :
    ∃ decl ∈ d.traits, ∃ ds, decl.resolve config = .ok (t, ds) := by
  have hfold : ∀ (decls : List TraitDecl) (state : TraitIndex × RoundResult),
      t ∈ (decls.foldl (addTrait config) state).1.traits →
      (∃ decl ∈ decls, ∃ ds, decl.resolve config = .ok (t, ds)) ∨ t ∈ state.1.traits := by
    intro decls
    induction decls with
    | nil => exact fun _ h => Or.inr h
    | cons decl decls ih =>
        intro state h
        rcases ih _ h with ⟨decl', hdecl, hr⟩ | h
        · exact Or.inl ⟨decl', List.mem_cons_of_mem _ hdecl, hr⟩
        · exact (mem_traits_addTrait h).imp_left fun hr => ⟨decl, List.mem_cons_self, hr⟩
  exact (hfold d.traits _ ht).resolve_right List.not_mem_nil

end Declarations

/-- The default options, but files have no comment at their head. -/
def Config.bare : Config := { Config.default with emitComment := false }

/-- What a round knows that is given some traits. -/
def TraitIndex.ofDecls (traits : List TraitDecl) : TraitIndex :=
  (Declarations.checkTraits ⟨traits, []⟩ .bare).1

/-- The trait is what a declaration resolves to. -/
def Trait.IsResolved (t : Trait) : Prop :=
  ∃ (d : TraitDecl) (c : Config) (ds : List Diagnostic), d.resolve c = .ok (t, ds)

theorem TraitIndex.isResolved_ofDecls {traits : List TraitDecl} :
    ∀ t ∈ (ofDecls traits).traits, t.IsResolved := by
  intro t ht
  obtain ⟨d, -, ds, hr⟩ := Declarations.exists_resolve_of_mem_checkTraits ht
  exact ⟨d, .bare, ds, hr⟩

end TraitWeaver
