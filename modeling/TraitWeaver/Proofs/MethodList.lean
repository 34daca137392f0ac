import TraitWeaver.Proofs.Grouping
import TraitWeaver.Proofs.Qualifier
import TraitWeaver.Proofs.TraitResolution
import TraitWeaver.Proofs.MemberGains

/-!
# The methods that a trait ends up with

A trait has the methods that it declares, and then those that it inherits. A method is
inherited if its signature is new, and what is new changes while methods are added:
against the declared ones, those of the interfaces before, and those of the same
interface before.

`Newcomers` follows this list as it grows. Because what was passed over has a
representative, it makes no difference where one interface ends and the next begins
(`Newcomers.append`). So the methods of all accepted interfaces can be taken as one list,
and every consequence is drawn for one list.
-/

namespace TraitWeaver

/-! ## Newcomers -/

namespace TraitMethod.Newcomers

variable {present ms ms' new new' : List TraitMethod}

/-- What comes later is compared with all that has been taken before. -/
theorem append (h : Newcomers present ms new) (h' : Newcomers (present ++ new) ms' new') :
    Newcomers present (ms ++ ms') (new ++ new') := by
  induction h with
  | nil present =>
      rw [List.append_nil] at h'
      exact h'
  | known hm _ ih => exact .known hm (ih h')
  | @new present _ _ m hm _ ih =>
      refine .new hm (ih ?_)
      rw [List.append_assoc]
      exact h'

/-- **Every method that was offered is represented**, by itself or by one of its signature. -/
theorem key_mem (h : Newcomers present ms new) :
    ∀ m ∈ ms, m.key ∈ (present ++ new).map (·.key) := by
  induction h with
  | nil present => exact fun m hm => absurd hm List.not_mem_nil
  | @known present _ new m hm _ ih =>
      refine List.forall_mem_cons.mpr ⟨?_, ih⟩
      rw [List.map_append]
      exact List.mem_append_left _ hm
  | @new present _ new m hm _ ih =>
      have hsplit : present ++ m :: new = present ++ [m] ++ new := by simp
      rw [hsplit]
      refine List.forall_mem_cons.mpr ⟨List.mem_map_of_mem ?_, ih⟩
      exact List.mem_append_left _ List.mem_concat_self

/-- **No signature is taken twice**, nor one that was there. -/
theorem nodup (h : Newcomers present ms new) :
    (new.map (·.key)).Nodup ∧ ∀ m ∈ new, m.key ∉ present.map (·.key) := by
  induction h with
  | nil present => exact ⟨List.nodup_nil, fun m hm => absurd hm List.not_mem_nil⟩
  | known _ _ ih => exact ih
  | @new present _ new m hm _ ih =>
      obtain ⟨hnodup, hfresh⟩ := ih
      have hfresh' : ∀ m' ∈ new, m'.key ∉ present.map (·.key) ∧ m'.key ≠ m.key := by
        intro m' hm'
        have hnot := hfresh m' hm'
        rw [List.map_append, List.mem_append, not_or] at hnot
        exact ⟨hnot.1, fun he => hnot.2 (he ▸ List.mem_singleton_self _)⟩
      refine ⟨List.nodup_cons.mpr ⟨fun hmem => ?_, hnodup⟩, ?_⟩
      · obtain ⟨m', hm', he⟩ := List.mem_map.mp hmem
        exact (hfresh' m' hm').2 he
      · exact List.forall_mem_cons.mpr ⟨hm, fun m' hm' => (hfresh' m' hm').1⟩

/-- So signatures are distinct altogether if those that were there are. -/
theorem nodup_append (h : Newcomers present ms new) (hpresent : (present.map (·.key)).Nodup) :
    ((present ++ new).map (·.key)).Nodup := by
  obtain ⟨hnodup, hfresh⟩ := h.nodup
  rw [List.map_append]
  refine List.nodup_append.mpr ⟨hpresent, hnodup, ?_⟩
  intro k hk k' hk' he
  obtain ⟨m, hm, rfl⟩ := List.mem_map.mp hk'
  exact hfresh m hm (he ▸ hk)

end TraitMethod.Newcomers

/-! ## Accepted interfaces -/

/-- The interfaces that resolve in a trait with this qualifier, each with the methods that come with
it. -/
def acceptedIn (q : String) (interfaces : List InterfaceDecl) :
    List (TraitInterface × List TraitMethod) :=
  interfaces.filterMap fun i => (i.resolveIn q).toOption

theorem acceptedIn_cons_of_eq_ok {q : String} {i : InterfaceDecl} {interfaces : List InterfaceDecl}
    {a : TraitInterface × List TraitMethod} (h : i.resolveIn q = .ok a) :
    acceptedIn q (i :: interfaces) = a :: acceptedIn q interfaces :=
  List.filterMap_cons_some (toOption_eq_some_iff.mpr h)

theorem acceptedIn_cons_of_not_resolvable {q : String} {i : InterfaceDecl}
    {interfaces : List InterfaceDecl} (h : i.resolvable = false) :
    acceptedIn q (i :: interfaces) = acceptedIn q interfaces := by
  refine List.filterMap_cons_none (Option.eq_none_iff_forall_ne_some.mpr fun a ha => ?_)
  rw [(InterfaceDecl.resolvable_iff q).mpr ⟨a, toOption_eq_some_iff.mp ha⟩] at h
  cases h

/-! ## The two loops -/

namespace TraitContext

variable (c : TraitContext)

/-- The members that are not skipped give their methods, in their order. -/
theorem exists_declared (members : List MemberDecl) (parts : TraitParts) :
    ∃ declared : List TraitMethod,
    List.Forall₂ (fun d m => d.resolveIn c.qualifier [] = .ok { m with kind := .abstract })
        (members.filterMap (·.composable? c.qualifier)) declared
      ∧ (members.foldl c.addMember parts).methods = parts.methods ++ declared
      ∧ (members.foldl c.addMember parts).interfaces = parts.interfaces := by
  induction members generalizing parts with
  | nil => exact ⟨[], .nil, (List.append_nil _).symm, rfl⟩
  | cons member members ih =>
      obtain ⟨gain, hgains, hadd⟩ := c.exists_addMember_eq parts member
      obtain ⟨hfirst, hnone⟩ := hgains.methods
      obtain ⟨declared, hrest, hmethods, hinterfaces⟩ := ih (parts.append gain)
      refine ⟨gain.methods ++ declared, ?_, ?_, ?_⟩
      · rw [List.filterMap_eq_flatMap_toList, List.flatMap_cons, ← List.filterMap_eq_flatMap_toList]
        exact List.rel_append hfirst hrest
      · rw [List.foldl_cons, hadd, hmethods, ← List.append_assoc]
        rfl
      · rw [List.foldl_cons, hadd, hinterfaces]
        show parts.interfaces ++ gain.interfaces = _
        rw [hnone, List.append_nil]

/-- The interfaces that resolve are accepted, and of all their methods the newcomers. -/
theorem exists_inherited (interfaces : List InterfaceDecl) (parts : TraitParts) : ∃ new,
    TraitMethod.Newcomers parts.methods
        ((acceptedIn c.qualifier interfaces).flatMap (·.2)) new
      ∧ (interfaces.foldl c.addInterface parts).methods = parts.methods ++ new
      ∧ (interfaces.foldl c.addInterface parts).interfaces =
        parts.interfaces ++ (acceptedIn c.qualifier interfaces).map (·.1) := by
  induction interfaces generalizing parts with
  | nil => exact ⟨[], .nil _, (List.append_nil _).symm, (List.append_nil _).symm⟩
  | cons i interfaces ih =>
      obtain ⟨gain, hgains, hadd⟩ := c.exists_addInterface_eq parts i
      obtain ⟨new, hnew, hmethods, hinterfaces⟩ := ih (parts.append gain)
      rw [List.foldl_cons, hadd]
      cases hgains with
      | skipped hskipped _ _ =>
          rw [acceptedIn_cons_of_not_resolvable hskipped]
          simp only [TraitParts.append, TraitParts.ofReport, List.append_nil] at *
          exact ⟨new, hnew, hmethods, hinterfaces⟩
      | @accepted ti ms first hr hfirst =>
          rw [acceptedIn_cons_of_eq_ok hr]
          refine ⟨first ++ new, hfirst.append hnew, ?_, ?_⟩
          · rw [hmethods, ← List.append_assoc]
            rfl
          · rw [hinterfaces, List.map_cons, List.append_cons]
            rfl

end TraitContext

/-! ## Groups -/

/-- No two of these are in order if none is before another. -/
theorem length_le_one_of_pairwise {α : Type} {R : α → α → Prop} {l : List α}
    (h : l.Pairwise R) (hnone : ∀ a ∈ l, ∀ b ∈ l, ¬R a b) : l.length ≤ 1 := by
  match l with
  | [] => exact Nat.zero_le 1
  | [_] => exact Nat.le_refl 1
  | a :: b :: l =>
      have hab : R a b := (List.pairwise_cons.mp h).1 b List.mem_cons_self
      exact absurd hab (hnone a List.mem_cons_self b (List.mem_cons_of_mem a List.mem_cons_self))

/-- **If the signatures of a trait are distinct, a group has at most one of its methods.** -/
theorem MethodGroup.length_filter_position_le {traits : List Trait} {u : Trait} {position : Nat}
    (hu : traits[position]? = some u) (hkeys : (u.methods.map (·.key)).Nodup) {g : MethodGroup}
    (hg : g ∈ ofTraits traits) : (g.entries.filter (·.position = position)).length ≤ 1 := by
  have hof : ∀ e ∈ g.entries.filter (·.position = position), e.position = position
      ∧ (u.methods.map (·.key))[e.methodPosition]? = some g.signature := by
    intro e he
    obtain ⟨hmem, hposition⟩ := List.mem_filter.mp he
    have hposition : e.position = position := of_decide_eq_true hposition
    obtain ⟨hseen, hs⟩ := ((grouped_ofTraits traits).mem_entries hg).mp hmem
    obtain ⟨howner, hmethod, -⟩ := Trait.mem_contributions.mp hseen
    rw [hposition, hu] at howner
    rw [← Option.some.inj howner] at hmethod
    refine ⟨hposition, ?_⟩
    rw [List.getElem?_map, hmethod]
    exact congrArg some hs
  refine length_le_one_of_pairwise ((pairwise_entries_ofTraits hg).filter _) ?_
  -- a signature stands at one place of the trait, and no place is before itself
  intro a ha b hb hbefore
  obtain ⟨hpa, hka⟩ := hof a ha
  obtain ⟨hpb, hkb⟩ := hof b hb
  have hlt : a.methodPosition < (u.methods.map (·.key)).length :=
    (List.getElem?_eq_some_iff.mp hka).1
  have hplace : a.methodPosition = b.methodPosition :=
    (List.getElem?_inj hlt hkeys).mp (hka.trans hkb.symm)
  rcases hbefore with h | ⟨-, h⟩
  · omega
  · omega

/-! ## The trait -/

/-- **Which methods a trait has.** -/
structure TraitDecl.MethodList (d : TraitDecl) (t : Trait) (declared inherited : List TraitMethod) :
    Prop where
  methods : t.methods = declared ++ inherited
  /-- Of the members, each method that is neither static nor private and that resolves, in the order
  of the members. -/
  ofMembers : List.Forall₂
    (fun decl m => decl.resolveIn t.qualifier [] = .ok { m with kind := .abstract })
    (d.members.filterMap (·.composable? t.qualifier)) declared
  /-- The interfaces are those that resolve, in their order. -/
  interfaces : t.interfaces = (acceptedIn t.qualifier d.interfaces).map (·.1)
  /-- Each comes with all of its methods that are neither static nor private, in their order. -/
  resolved : ∀ a ∈ acceptedIn t.qualifier d.interfaces,
    ∃ i ∈ d.interfaces, i.Resolves t.qualifier a.1 a.2
  /-- Of all these methods, each whose signature is not that of a method before it in the trait. -/
  newcomers : TraitMethod.Newcomers declared
    ((acceptedIn t.qualifier d.interfaces).flatMap (·.2)) inherited
  /-- Every one of them is represented by a method of its signature. -/
  represented : ∀ a ∈ acceptedIn t.qualifier d.interfaces, ∀ m ∈ a.2,
    ∃ m' ∈ t.methods, m'.key = m.key
  /-- What is inherited repeats no signature, neither one that is declared nor one among itself. -/
  distinct : (inherited.map (·.key)).Nodup ∧ ∀ m ∈ inherited, m.key ∉ declared.map (·.key)
  /-- If the declared methods repeat none, then no group has two methods of the trait. -/
  grouped : (declared.map (·.key)).Nodup → ∀ (traits : List Trait) (position : Nat) (u : Trait),
    traits[position]? = some u → Trait.Requalified t u → ∀ g ∈ MethodGroup.ofTraits traits,
      (g.entries.filter (·.position = position)).length ≤ 1

theorem TraitDecl.methodList_of_resolve {d : TraitDecl} {config : Config} {t : Trait}
    {ds : List Diagnostic} (h : d.resolve config = .ok (t, ds)) :
    ∃ declared inherited, d.MethodList t declared inherited := by
  obtain ⟨name, typeParams, -, -, rfl⟩ := exists_of_resolve h
  obtain ⟨declared, hdeclared, hmethods, hnone⟩ :=
    (d.context config name).exists_declared d.members .empty
  obtain ⟨inherited, hinherited, hall, hinterfaces⟩ :=
    (d.context config name).exists_inherited d.interfaces
      (d.members.foldl (d.context config name).addMember .empty)
  have hdeclaredOnly : (d.members.foldl (d.context config name).addMember .empty).methods =
      declared := hmethods
  rw [hdeclaredOnly] at hinherited hall
  refine ⟨declared, inherited, hall, hdeclared, ?_, ?_, hinherited, ?_, hinherited.nodup, ?_⟩
  · refine hinterfaces.trans ?_
    rw [hnone]
    rfl
  · intro a ha
    obtain ⟨i, hi, hr⟩ := List.mem_filterMap.mp ha
    exact ⟨i, hi, InterfaceDecl.resolves_of_resolveIn (toOption_eq_some_iff.mp hr)⟩
  · intro a ha m hm
    have hmem := hinherited.key_mem m (List.mem_flatMap.mpr ⟨a, ha, hm⟩)
    rw [← hall] at hmem
    exact List.mem_map.mp hmem
  · intro hdistinct traits position u hu hreq g hg
    refine MethodGroup.length_filter_position_le hu ?_ hg
    rw [hreq.map_key, show Trait.methods _ = _ from hall]
    exact hinherited.nodup_append hdistinct

/-! ## A lamp -/

/-- A trait that declares a method of its first interface, and whose last interface has a method that
is one of the first as soon as its type is known. -/
def TraitDecl.lamp : TraitDecl :=
  let text : SourceType := .declared "java.lang.String" []
  { name := "lib.Lamp"
    typeParams := []
    superclass := none
    interfaces :=
      [⟨"lib.Named", ["N"], [text],
          [.plain "name" [.public, .abstract] (.typeVariable "N" none none),
            .plain "label" [.public, .default] text]⟩,
        ⟨"lib.Lit", ["L"], [text, text], [.plain "light" [.public, .abstract] .void]⟩,
        ⟨"lib.Titled", [], [], [.plain "name" [.public, .abstract] text,
          .plain "make" [.public, .static] .void, .plain "title" [.public, .abstract] text]⟩]
    members :=
      [.method (.plain "label" [.public] text), .method (.plain "make" [.public, .static] .void)] }

theorem TraitDecl.methodList_lamp :
    ∃ t ds, lamp.resolve .bare = .ok (t, ds)
      ∧ (∃ declared inherited, lamp.MethodList t declared inherited)
      ∧ t.methods.map (fun m => (m.name, m.inheritedFrom)) =
        [("label", none), ("name", some "lib.Named"), ("title", some "lib.Titled")]
      ∧ t.interfaces.map (·.type.name.simple) = ["Named", "Titled"] := by
  have hresolve : (lamp.resolve .bare).toOption.map (fun r =>
      (r.1.methods.map fun m => (m.name, m.inheritedFrom),
        r.1.interfaces.map (·.type.name.simple))) =
      some ([("label", none), ("name", some "lib.Named"), ("title", some "lib.Titled")],
        ["Named", "Titled"]) := by
    decide +kernel
  obtain ⟨⟨t, ds⟩, hr, he⟩ := Option.map_eq_some_iff.mp hresolve
  obtain ⟨hmethods, hinterfaces⟩ := Prod.mk.inj he
  have hr := toOption_eq_some_iff.mp hr
  exact ⟨t, ds, hr, methodList_of_resolve hr, hmethods, hinterfaces⟩

end TraitWeaver
