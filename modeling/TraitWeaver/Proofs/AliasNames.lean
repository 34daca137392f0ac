import Mathlib.Data.List.Perm.Basic
import TraitWeaver.Proofs.Delegation
import TraitWeaver.Proofs.Inheritance

/-!
# Whether the methods of a delegate can be told apart

A class may not have two methods of one name with the same parameter types. A delegate has
methods of two sorts: those of the trait under their own names, so far as they can be
overridden, and the aliases of its implementations. Own names are kept apart by the trait
and aliases by the methods that they are made of, but a trait is free to give a method the
name that is the alias of another. This is the only way in which two methods of a delegate
can be alike.
-/

namespace TraitWeaver

/-! ## Calls -/

/-- What a call finds a method by: the name and the types of the parameters. -/
def Signature.call (s : Signature) : String × List TypeRef := (s.name, s.args)

/-- The name and the types of the parameters, without qualifiers. Constructors have them as well. -/
def MethodHeading.call (h : MethodHeading) : String × List TypeRef :=
  (h.name, h.params.map (·.type.normalized))

namespace Member

def call? : Member → Option (String × List TypeRef)
  | .abstract h | .method h _ => some h.call
  | .field _ | .nested _ _ => none

/-- A method is called by its signature. -/
theorem call?_of_key? {member : Member} {s : Signature} (h : member.key? = some s) :
    member.call? = some s.call := by
  have hheading : ∀ heading : MethodHeading, heading.key? = some s → heading.call = s.call := by
    intro heading hkey
    obtain ⟨returns, -, rfl⟩ := Option.map_eq_some_iff.mp hkey
    show (heading.name, heading.params.map (·.type.normalized)) =
      (heading.name, (heading.params.map (·.type)).map (·.normalized))
    rw [List.map_map]
    rfl
  cases member with
  | field f => cases h
  | abstract heading => exact congrArg some (hheading heading h)
  | method heading body => exact congrArg some (hheading heading h)
  | nested heading members => cases h

end Member

namespace CompilationUnit

/-- The calls of the methods in the type of the file. -/
def methodCalls (u : CompilationUnit) : List (String × List TypeRef) :=
  (u.body.members.filterMap Member.key?).map Signature.call

/-- The calls of the methods and constructors in the type of the file. -/
def calls (u : CompilationUnit) : List (String × List TypeRef) :=
  u.body.members.filterMap Member.call?

end CompilationUnit

namespace TraitMethod

/-- The delegate has the method under its own name. -/
def isOverridden (m : TraitMethod) : Bool := m.kind = .selfAccessor || !m.isFinal

theorem call_aliasKey_inj {m m' : TraitMethod} {c : Config}
    (h : (m.aliasKey c).call = (m'.aliasKey c).call) : m.key.call = m'.key.call := by
  obtain ⟨halias, hargs⟩ := Prod.mk.inj h
  have hname : m.name = m'.name := (String.append_right_inj c.aliasPrefix).mp halias
  exact Prod.ext hname hargs

end TraitMethod

/-! ## The methods of a delegate -/

namespace Trait

variable {t : Trait} {c : Config}

/-- **What a method gives the delegate**: itself if it can be overridden, and its alias if it is an
implementation. -/
theorem filterMap_key?_delegateMembers (t : Trait) (c : Config) (m : TraitMethod) :
    (t.delegateMembers c m).filterMap Member.key? =
      (if m.isOverridden then [m.key] else [])
        ++ if decide (m.kind = .concrete) then [m.aliasKey c] else [] := by
  have hforwarding : (if m.isFinal then [] else [forwardingMember m]).filterMap Member.key? =
      if m.isFinal then [] else [m.key] := by
    split <;> rfl
  unfold delegateMembers TraitMethod.isOverridden
  cases hk : m.kind with
  | selfAccessor => rfl
  | abstract =>
      rw [hforwarding]
      cases m.isFinal <;> rfl
  | concrete =>
      rw [List.filterMap_append, hforwarding]
      cases m.isFinal <;> rfl

/-- **The methods of a delegate** are those that can be overridden and the aliases. -/
theorem perm_methodCalls (t : Trait) (c : Config) :
    (t.delegateFile c).methodCalls.Perm
      ((t.methods.filter (·.isOverridden)).map (·.key.call)
        ++ (t.methods.filter (·.kind = .concrete)).map fun m => (m.aliasKey c).call) := by
  have hkeys : (t.delegateFile c).body.members.filterMap Member.key? =
      t.methods.flatMap fun m => (if m.isOverridden then [m.key] else [])
        ++ if decide (m.kind = .concrete) then [m.aliasKey c] else [] := by
    rw [members_delegateFile, List.filterMap_append, List.filterMap_flatMap]
    exact List.flatMap_congr fun m _ => filterMap_key?_delegateMembers t c m
  have hperm := (List.flatMap_append_perm t.methods
    (fun m => if m.isOverridden then [m.key] else [])
    (fun m => if decide (m.kind = .concrete) then [m.aliasKey c] else [])).symm
  rw [flatMap_ite_eq_map_filter, flatMap_ite_eq_map_filter] at hperm
  unfold CompilationUnit.methodCalls
  rw [hkeys]
  have hcalls := hperm.map Signature.call
  rw [List.map_append, List.map_map, List.map_map] at hcalls
  exact hcalls

theorem mem_methodCalls {call : String × List TypeRef} :
    call ∈ (t.delegateFile c).methodCalls ↔
      ∃ m ∈ t.methods, (m.isOverridden ∧ m.key.call = call)
        ∨ (m.kind = .concrete ∧ (m.aliasKey c).call = call) := by
  rw [(t.perm_methodCalls c).mem_iff, List.mem_append, List.mem_map, List.mem_map]
  simp only [List.mem_filter, decide_eq_true_eq, and_assoc]
  rw [← exists_or]
  exact exists_congr fun m => and_or_left.symm

/-- The call of the delegate's constructor. -/
def constructorCall (t : Trait) (c : Config) : String × List TypeRef :=
  (c.delegateOf t.name.simple, [(t.interfaceRef c).normalized])

/-- The constructor comes first, and there is no other. -/
theorem calls_delegateFile (t : Trait) (c : Config) :
    (t.delegateFile c).calls = t.constructorCall c :: (t.delegateFile c).methodCalls := by
  have hmembers : (t.methods.flatMap (t.delegateMembers c)).filterMap Member.call? =
      ((t.methods.flatMap (t.delegateMembers c)).filterMap Member.key?).map Signature.call := by
    rw [List.map_filterMap]
    refine List.filterMap_congr fun member hmember => ?_
    obtain ⟨m, -, hmember⟩ := List.mem_flatMap.mp hmember
    obtain ⟨own, hown, he⟩ := t.delegateMembers_eq c m
    -- whatever a method gives has a signature
    have hkey : ∃ s, member.key? = some s := by
      rw [he] at hmember
      rcases List.mem_append.mp hmember with hmember | hmember
      · exact ⟨_, hown member hmember⟩
      · split at hmember
        · rw [List.mem_singleton.mp hmember]
          exact ⟨_, rfl⟩
        · exact absurd hmember List.not_mem_nil
    obtain ⟨s, hs⟩ := hkey
    rw [hs, Member.call?_of_key? hs]
    rfl
  unfold CompilationUnit.calls CompilationUnit.methodCalls
  rw [members_delegateFile, List.filterMap_append, List.filterMap_append, hmembers]
  rfl

/-- No method that the delegate has under its own name is called like the alias of another. -/
def AliasesApart (t : Trait) (c : Config) : Prop :=
  ∀ m ∈ t.methods, m.kind = .concrete → ∀ m' ∈ t.methods, m'.isOverridden →
    m'.key.call ≠ (m.aliasKey c).call

/--
**When two methods of a delegate are alike.** If the methods of the trait can be told apart, then
those of its delegate can exactly if none has the name and the parameters of another's alias; and
the constructor is told from them as well exactly if none is called like it.
-/
theorem nodup_calls_iff {t : Trait} (hdistinct : (t.methods.map (·.key.call)).Nodup) (c : Config) :
    ((t.delegateFile c).methodCalls.Nodup ↔ t.AliasesApart c)
      ∧ ((t.delegateFile c).calls.Nodup ↔ t.AliasesApart c ∧ ∀ m ∈ t.methods,
          (m.isOverridden → m.key.call ≠ t.constructorCall c)
            ∧ (m.kind = .concrete → (m.aliasKey c).call ≠ t.constructorCall c)) := by
  have hown : ((t.methods.filter (·.isOverridden)).map (·.key.call)).Nodup :=
    hdistinct.sublist (List.filter_sublist.map _)
  have haliases : ((t.methods.filter (·.kind = .concrete)).map
      fun m => (m.aliasKey c).call).Nodup := by
    refine (List.nodup_map_iff_inj_on (hdistinct.of_map.filter _)).mpr fun m hm m' hm' he => ?_
    exact List.inj_on_of_nodup_map hdistinct (List.mem_of_mem_filter hm)
      (List.mem_of_mem_filter hm') (TraitMethod.call_aliasKey_inj he)
  have hmethods : (t.delegateFile c).methodCalls.Nodup ↔ t.AliasesApart c := by
    rw [(t.perm_methodCalls c).nodup_iff, List.nodup_append, and_iff_right hown,
      and_iff_right haliases]
    simp only [List.forall_mem_map, List.mem_filter, decide_eq_true_eq, and_imp]
    refine ⟨fun hall m hm hk m' hm' ho => hall m' hm' ho m hm hk,
      fun hall m' hm' ho m hm hk => hall m hm hk m' hm' ho⟩
  refine ⟨hmethods, ?_⟩
  rw [t.calls_delegateFile c, List.nodup_cons, hmethods, and_comm, mem_methodCalls]
  simp only [not_exists, not_and, not_or, ne_eq]

end Trait

/-! ## A door and a greeter -/

instance (t : Trait) (c : Config) : Decidable (t.AliasesApart c) :=
  inferInstanceAs (Decidable (∀ m ∈ t.methods, m.kind = .concrete → ∀ m' ∈ t.methods,
    m'.isOverridden → m'.key.call ≠ (m.aliasKey c).call))

/-- With methods of each kind, all of other names. -/
theorem Trait.nodup_calls_iff_door :
    ∃ t ds, TraitDecl.door.resolve .bare = .ok (t, ds)
      ∧ (t.methods.map (·.key.call)).Nodup ∧ (t.delegateFile .bare).methodCalls.Nodup
      ∧ (t.delegateFile .bare).methodCalls.length = 8 := by
  have hresolve : (TraitDecl.door.resolve .bare).toOption.map (fun r =>
      (decide (r.1.methods.map (·.key.call)).Nodup, decide (r.1.AliasesApart .bare),
        (r.1.delegateFile .bare).methodCalls.length)) = some (true, true, 8) := by
    decide +kernel
  obtain ⟨⟨t, ds⟩, hr, he⟩ := Option.map_eq_some_iff.mp hresolve
  obtain ⟨hdistinct, he⟩ := Prod.mk.inj he
  obtain ⟨hapart, hlength⟩ := Prod.mk.inj he
  have hdistinct := of_decide_eq_true hdistinct
  exact ⟨t, ds, toOption_eq_some_iff.mp hr, hdistinct,
    (nodup_calls_iff hdistinct .bare).1.mpr (of_decide_eq_true hapart), hlength⟩

/-- A trait with a method of the name that is the alias of the other. -/
def TraitDecl.greeter : TraitDecl :=
  { name := "lib.Greeter"
    typeParams := []
    superclass := none
    interfaces := []
    members :=
      [.method (.plain "greet" [.public] .void), .method (.plain "trait$greet" [.public] .void)] }

/-- The delegate has the name twice, as the alias of one method and as the other method. -/
theorem Trait.not_forall_nodup_methodCalls :
    (¬∀ (t : Trait) (c : Config), t.IsResolved → c.validate = .ok () →
        (t.methods.map (·.key.call)).Nodup → (t.delegateFile c).methodCalls.Nodup)
      ∧ TraitDecl.greeter.delegateText? = some (String.join
          ["package lib;\n\n",
            "public class GreeterDelegate extends Greeter \x7b\n",
            "    private final GreeterTrait target;\n\n",
            "    public GreeterDelegate(GreeterTrait target) \x7b\n",
            "        this.target = target;\n    \x7d\n\n",
            "    @Override\n",
            "    public void greet() \x7b\n",
            "        this.target.greet();\n    \x7d\n\n",
            "    public void trait$greet() \x7b\n",
            "        super.greet();\n    \x7d\n\n",
            "    @Override\n",
            "    public void trait$greet() \x7b\n",
            "        this.target.trait$greet();\n    \x7d\n\n",
            "    public void trait$trait$greet() \x7b\n",
            "        super.trait$greet();\n    \x7d\n",
            "\x7d\n"]) := by
  refine ⟨fun hall => ?_, by decide +kernel⟩
  have hvalid : Config.bare.validate = .ok () := by decide +kernel
  have hresolve : (TraitDecl.greeter.resolve .bare).toOption.map (fun r =>
      (decide (r.1.methods.map (·.key.call)).Nodup,
        decide (r.1.delegateFile .bare).methodCalls.Nodup)) = some (true, false) := by
    decide +kernel
  obtain ⟨⟨t, ds⟩, hr, he⟩ := Option.map_eq_some_iff.mp hresolve
  obtain ⟨hdistinct, halike⟩ := Prod.mk.inj he
  exact of_decide_eq_false halike (hall t .bare ⟨_, _, ds, toOption_eq_some_iff.mp hr⟩ hvalid
    (of_decide_eq_true hdistinct))

end TraitWeaver
