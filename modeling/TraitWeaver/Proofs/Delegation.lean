import TraitWeaver.Proofs.Dispatch
import TraitWeaver.Proofs.TraitResolution

/-!
# The interface and the delegate of a trait fit together

The two files of a trait are planned apart, by different choices among the same
methods. A delegate passes a method on to the host if the method is not final, and
the host is only known to implement the interface. But the interface leaves out what
is inherited. So a method that is passed on must be found either among those that the
interface declares, or in an interface that this one extends.

The second is a matter of how the trait was put together. A method comes into a trait
only together with its interface (`TraitParts.Backed`): an interface that is not in
order is left out with all its methods.

Members of a delegate are told apart by what they do (`Member.role?`), so that nothing
is said about one of them that another might do as well.
-/

namespace TraitWeaver

/-! ## What a member does -/

namespace MethodHeading

/-- The heading has all that there is of a method, under a name. -/
structure Declares (h : MethodHeading) (m : TraitMethod) (name : String) : Prop where
  name : h.name = name
  typeParams : h.typeParams = m.typeParams
  returns : h.returns = some m.returns
  params : h.params = m.params
  throws : h.throws = m.throws

end MethodHeading

namespace Expr

/-- The value of a return statement, or else the statement itself. -/
def answered : Expr → Expr
  | .result (some value) => value
  | statement => statement

end Expr

namespace Trait

variable {m : TraitMethod} {c : Config}

/-- If each entry of a list gives one thing or nothing, then they are in the order of the entries. -/
theorem flatMap_ite_eq_map_filter {α β : Type} (p : α → Bool) (f : α → β) (l : List α) :
    (l.flatMap fun a => if p a then [f a] else []) = (l.filter p).map f := by
  induction l with
  | nil => rfl
  | cons a l ih =>
      rw [List.flatMap_cons, List.filter_cons, ih]
      cases p a <;> rfl

/-- The field with the host, and the constructor that sets it. -/
def hostMembers (t : Trait) (c : Config) : List Member :=
  [.field ⟨[.private, .final], t.interfaceRef c, hostField, none⟩,
    .method { MethodHeading.ofConstructor (c.delegateOf t.name.simple) with
        keywords := [.public], params := [⟨t.interfaceRef c, hostField⟩] }
      [.assign (.ownField hostField) (.var hostField)]]

theorem members_delegateFile (t : Trait) (c : Config) :
    (t.delegateFile c).body.members =
      t.hostMembers c ++ t.methods.flatMap (t.delegateMembers c) := rfl

end Trait

/-! ## Methods come with their interfaces -/

/-- No interface brings a self accessor along. -/
theorem InterfaceDecl.kind_ne_of_resolveIn {i : InterfaceDecl} {q : String} {ti : TraitInterface}
    {ms : List TraitMethod} (h : i.resolveIn q = .ok (ti, ms)) :
    ∀ m ∈ ms, m.kind ≠ .selfAccessor := by
  unfold resolveIn at h
  obtain ⟨name, -, h⟩ := bind_eq_ok.mp h
  split at h
  · cases h
  · obtain ⟨args, -, h⟩ := bind_eq_ok.mp h
    obtain ⟨ms', hms, h⟩ := bind_eq_ok.mp h
    obtain ⟨-, rfl⟩ := Prod.mk.inj (pure_eq_ok.mp h)
    intro m hm
    obtain ⟨decl, -, hr⟩ := exists_rel_of_mem (mapM_eq_ok_iff.mp hms) hm
    obtain ⟨m', -, he⟩ := bind_eq_ok.mp hr
    rw [← pure_eq_ok.mp he]
    dsimp only
    split
    · exact nofun
    · exact nofun

/-- Inherited methods have their interfaces with them, and there is one self accessor at most. -/
structure TraitParts.Backed (parts : TraitParts) (d : TraitDecl) (q : String) : Prop where
  inherited : ∀ m ∈ parts.methods, m.isInherited →
    ∃ i ∈ d.interfaces, ∃ ti ∈ parts.interfaces, ∃ ms, i.resolveIn q = .ok (ti, ms) ∧ m ∈ ms
  accessor : (parts.methods.filter (·.kind = .selfAccessor)).length ≤ 1

namespace TraitParts.Backed

variable {d : TraitDecl} {q : String} {before after : TraitParts}

theorem step (h : before.Backed d q) (hstep : Step d q before after) : after.Backed d q := by
  cases hstep with
  | nothing ds => exact ⟨h.inherited, h.accessor⟩
  | method ds decl m hdecl hres horigin hfirst =>
      refine ⟨List.forall_mem_append.mpr ⟨h.inherited, List.forall_mem_singleton.mpr ?_⟩, ?_⟩
      · intro hinherited
        rw [TraitMethod.isInherited, horigin] at hinherited
        cases hinherited
      · dsimp only
        rw [List.filter_append, List.length_append]
        by_cases hk : m.kind = .selfAccessor
        · have hnone : before.methods.filter (·.kind = .selfAccessor) = [] :=
            List.filter_eq_nil_iff.mpr (List.any_eq_false.mp (hfirst hk))
          rw [hnone, List.length_nil, Nat.zero_add]
          exact List.length_filter_le _ _
        · have hno : [m].filter (·.kind = .selfAccessor) = [] := by simp [hk]
          rw [hno]
          exact h.accessor
  | constant f k => exact ⟨h.inherited, h.accessor⟩
  | interface i ti ms new hi hr hsub =>
      refine ⟨List.forall_mem_append.mpr ⟨fun m hm hinherited => ?_, fun m hm _ => ?_⟩, ?_⟩
      · obtain ⟨i', hi', ti', hti', ms', hr', hm'⟩ := h.inherited m hm hinherited
        exact ⟨i', hi', ti', List.mem_append_left _ hti', ms', hr', hm'⟩
      · exact ⟨i, hi, ti, List.mem_concat_self, ms, hr, hsub hm⟩
      · have hnone : new.filter (·.kind = .selfAccessor) = [] := by
          refine List.filter_eq_nil_iff.mpr fun m hm hk => ?_
          exact InterfaceDecl.kind_ne_of_resolveIn hr m (hsub hm) (of_decide_eq_true hk)
        dsimp only
        rw [List.filter_append, hnone, List.append_nil]
        exact h.accessor

theorem empty : TraitParts.empty.Backed d q where
  inherited := fun _ hm => absurd hm List.not_mem_nil
  accessor := Nat.zero_le 1

end TraitParts.Backed

/-! ## The two files -/

/-- What implements the interface has the method: the interface declares it, or it came with an
interface that this one extends. -/
def TraitDecl.Answers (d : TraitDecl) (t : Trait) (c : Config) (m : TraitMethod) : Prop :=
  (∃ h, .abstract h ∈ (t.interfaceFile c).body.members ∧ h.Declares m m.name)
    ∨ ∃ i ∈ d.interfaces, ∃ ti ms, i.resolveIn t.qualifier = .ok (ti, ms) ∧ m ∈ ms
      ∧ m.inheritedFrom = some ti.type.name.qualified
      ∧ ti.type.toRef ∈ (t.interfaceFile c).body.heading.interfaces

namespace Trait

variable {t : Trait} {c : Config}

end Trait

theorem TraitDecl.backed_of_resolve {d : TraitDecl} {config : Config} {t : Trait}
    {ds : List Diagnostic} (h : d.resolve config = .ok (t, ds)) :
    TraitParts.Backed ⟨t.methods, t.constants, t.interfaces, []⟩ d t.qualifier := by
  obtain ⟨name, typeParams, -, -, rfl⟩ := exists_of_resolve h
  have hparts : (d.parts (d.context config name)).Backed d name.simple :=
    d.parts_induction (motive := (·.Backed d name.simple)) (d.context config name) .empty
      fun h hstep => h.step hstep
  exact ⟨hparts.inherited, hparts.accessor⟩

/-- A trait with a method of each kind and origin. -/
def TraitDecl.door : TraitDecl :=
  let text : SourceType := .declared "java.lang.String" []
  { name := "lib.Door"
    typeParams := [⟨"T", []⟩]
    superclass := none
    interfaces := [⟨"lib.Named", ["N"], [text],
      [.plain "name" [.public, .abstract] (.typeVariable "N" none none),
        .plain "label" [.public, .default] text]⟩]
    members :=
      [.method (.plain "width" [.public, .abstract] (.typeVariable "T" none none)),
        .method (.plain "knock" [.public] .void),
        .method (.plain "lock" [.public, .final] .void),
        .method { MethodDecl.plain "host" [.public, .abstract] (.declared "lib.DoorTrait" []) with
          selfAccessor := true }] }

end TraitWeaver
