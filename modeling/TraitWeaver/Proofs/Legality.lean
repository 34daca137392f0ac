import TraitWeaver.Artifact.Delegate
import TraitWeaver.Artifact.Interface
import TraitWeaver.Artifact.Superclass
import TraitWeaver.Proofs.SourceInduction
import TraitWeaver.Proofs.Writing

/-!
# Plans that can be written

A plan of a file is a tree, and the writer that it is written with knows nothing of
trees: it gets one operation after the other and refuses some. What it refuses of a
tree is only ever the heading of a method that is in the wrong place, and whether
the place is wrong depends on nothing but the kind of the type directly around it.

The reason is that the operations of a member leave the scopes as they found them
(`Balances`). So whatever comes before a member, in its type or in others, it is
written in the state that its type's heading left behind, and a tree can be written
exactly if none of its members is misplaced (`render_fails_iff_misplaced`).
-/

namespace TraitWeaver

/-! ## Where members stand -/

namespace Member

mutual

/-- The member and all members in it, each with the kind of the type that it is directly in. -/
def placed (kind : TypeKind) : Member → List (TypeKind × Member)
  | .field f => [(kind, .field f)]
  | .abstract h => [(kind, .abstract h)]
  | .method h body => [(kind, .method h body)]
  | .nested h members => (kind, .nested h members) :: placedAll h.kind members

/-- The same for all members of a type. -/
def placedAll (kind : TypeKind) : List Member → List (TypeKind × Member)
  | [] => []
  | m :: ms => placed kind m ++ placedAll kind ms

end

theorem placedAll_eq_flatMap (kind : TypeKind) (ms : List Member) :
    placedAll kind ms = ms.flatMap (placed kind) := by
  induction ms with
  | nil => rfl
  | cons m ms ih => rw [placedAll, ih, List.flatMap_cons]

/-- No type of the kind can have the member: a constructor has a body, and an interface has neither
constructors nor bodies of methods that are not static. -/
def Misplaced (kind : TypeKind) : Member → Prop
  | .abstract h => h.isConstructor = true
  | .method h _ => kind = .interfaceType ∧ (h.isConstructor = true ∨ .static ∉ h.keywords)
  | .field _ | .nested .. => False

/-- The member, with all that is in it, can be a member of a type of the kind. -/
def Legal (kind : TypeKind) (m : Member) : Prop := ∀ p ∈ m.placed kind, ¬p.2.Misplaced p.1

theorem legal_nested_iff {kind : TypeKind} {h : TypeHeading} {members : List Member} :
    Legal kind (.nested h members) ↔ ∀ m ∈ members, m.Legal h.kind := by
  have hself : ¬Misplaced kind (.nested h members) := id
  unfold Legal
  rw [placed, placedAll_eq_flatMap, List.forall_mem_cons, and_iff_right hself,
    List.forall_mem_flatMap]

end Member

/-- All members in the tree, each with the kind of the type that it is directly in. -/
def TypeDefinition.placed (b : TypeDefinition) : List (TypeKind × Member) :=
  Member.placedAll b.heading.kind b.members

/-! ## Operations that leave the scopes as they were -/

namespace Writer

/-- A type of the kind is the innermost scope. -/
def InType (w : Writer) (kind : TypeKind) : Prop :=
  w.scope = some .type ∧ w.kinds.head? = some kind

/-- If the operations are legal, they are accepted and leave the same scopes open; if not, one of
them is refused. -/
structure Balances (w : Writer) (ops : List Op) (legal : Prop) : Prop where
  accepted : legal → ∃ w', w.applyAll ops = .ok w' ∧ w'.scopes = w.scopes ∧ w'.kinds = w.kinds
  refused : ¬legal → ∃ e, w.applyAll ops = .error e

namespace Balances

variable {w : Writer} {ops ops' : List Op} {p q : Prop}

theorem congr (h : w.Balances ops p) (hiff : q ↔ p) : w.Balances ops q :=
  ⟨fun hq => h.accepted (hiff.mp hq), fun hn => h.refused fun hp => hn (hiff.mpr hp)⟩

theorem nothing (w : Writer) : w.Balances [] True :=
  ⟨fun _ => ⟨w, rfl, rfl, rfl⟩, fun hn => absurd trivial hn⟩

/-- An operation that opens and closes nothing. -/
theorem single (op : Op) (hscopes : op.scopesAfter w.scopes = w.scopes)
    (hkinds : op.kindsAfter w.kinds = w.kinds) : w.Balances [op] (w.Admits op) :=
  ⟨fun h => ⟨w.after op, applyAll_cons_of_admits h [], hscopes, hkinds⟩,
    fun hn => applyAll_cons_of_not_admits hn []⟩

theorem append (h : w.Balances ops p)
    (h' : ∀ w' : Writer, w'.scopes = w.scopes → w'.kinds = w.kinds → w'.Balances ops' q) :
    w.Balances (ops ++ ops') (p ∧ q) := by
  refine ⟨?_, ?_⟩
  · rintro ⟨hp, hq⟩
    obtain ⟨w', hw', hscopes, hkinds⟩ := h.accepted hp
    obtain ⟨w'', hw'', hscopes', hkinds'⟩ := (h' w' hscopes hkinds).accepted hq
    refine ⟨w'', ?_, hscopes'.trans hscopes, hkinds'.trans hkinds⟩
    rw [applyAll_append, hw']
    exact hw''
  · intro hn
    rw [applyAll_append]
    by_cases hp : p
    · obtain ⟨w', hw', hscopes, hkinds⟩ := h.accepted hp
      rw [hw']
      exact (h' w' hscopes hkinds).refused fun hq => hn ⟨hp, hq⟩
    · obtain ⟨e, he⟩ := h.refused hp
      exact ⟨e, by rw [he]; rfl⟩

/-- What one operation opens and another one closes is balanced if all between them is. -/
theorem enclosed (opening closing : Op) (hopening : w.Admits opening ↔ q)
    (hbody : (w.after opening).Balances ops p)
    (hclosing : ∀ v : Writer, v.scopes = (w.after opening).scopes →
      v.kinds = (w.after opening).kinds →
      v.Admits closing ∧ (v.after closing).scopes = w.scopes ∧ (v.after closing).kinds = w.kinds) :
    w.Balances (opening :: ops ++ [closing]) (q ∧ p) := by
  refine ⟨?_, ?_⟩
  · rintro ⟨hq, hp⟩
    obtain ⟨v, hv, hscopes, hkinds⟩ := hbody.accepted hp
    obtain ⟨hadmits, hscopes, hkinds⟩ := hclosing v hscopes hkinds
    refine ⟨v.after closing, ?_, hscopes, hkinds⟩
    rw [List.cons_append, applyAll_cons_of_admits (hopening.mpr hq), applyAll_append, hv]
    exact applyAll_cons_of_admits hadmits []
  · intro hn
    by_cases hq : q
    · obtain ⟨e, he⟩ := hbody.refused fun hp => hn ⟨hq, hp⟩
      refine ⟨e, ?_⟩
      rw [List.cons_append, applyAll_cons_of_admits (hopening.mpr hq), applyAll_append, he]
      rfl
    · exact applyAll_cons_of_not_admits (fun h => hq (hopening.mp h)) _

end Balances

/-! ## Members -/

/-- Statements have a place in every method. -/
theorem balances_statements {w : Writer} (hw : w.scope = some .method) (body : List Expr) :
    w.Balances (body.map .statement) True := by
  induction body generalizing w with
  | nil => exact .nothing w
  | cons e body ih =>
      have he : w.Balances [.statement e] (w.scope = some .method) := .single _ rfl rfl
      refine (he.append fun w' hscopes _ => ih ?_).congr (iff_of_true trivial ⟨hw, trivial⟩)
      exact (congrArg List.head? hscopes).trans hw

/-- A method may be opened in a type of the kind, as a constructor or as any other method. -/
theorem admits_method_iff {w : Writer} {kind : TypeKind} (hw : w.InType kind) (h : MethodHeading)
    (body : List Expr) :
    w.Admits (if h.isConstructor then .openConstructor h else .openMethod h) ↔
      ¬Member.Misplaced kind (.method h body) := by
  obtain ⟨hscope, hkind⟩ := hw
  by_cases hc : h.isConstructor = true
  · rw [if_pos hc]
    unfold Admits AdmitsMethod Member.Misplaced
    rw [hscope, hkind]
    cases kind <;> simp [hc]
  · rw [if_neg hc]
    unfold Admits AdmitsMethod Member.Misplaced
    rw [hscope, hkind]
    cases kind <;> simp [hc]

/-- **A method with a body is balanced**, if it has a place at all. -/
theorem balances_method {w : Writer} {kind : TypeKind} (hw : w.InType kind) (h : MethodHeading)
    (body : List Expr) :
    w.Balances (Member.method h body).ops (¬Member.Misplaced kind (.method h body)) := by
  have hopened : ∀ op : Op, op = (if h.isConstructor then .openConstructor h else .openMethod h) →
      (w.after op).scopes = .method :: w.scopes ∧ (w.after op).kinds = w.kinds := by
    intro op hop
    split at hop
    · exact hop ▸ ⟨rfl, rfl⟩
    · exact hop ▸ ⟨rfl, rfl⟩
  obtain ⟨hscopes, hkinds⟩ := hopened _ rfl
  have hbody := balances_statements (congrArg List.head? hscopes) body
  refine (Balances.enclosed _ .closeMethod (admits_method_iff hw h body) hbody ?_).congr
    (and_true _).symm.to_iff
  intro v hv hv'
  refine ⟨?_, ?_, hv'.trans hkinds⟩
  · exact congrArg List.head? (hv.trans hscopes)
  · exact congrArg List.tail (hv.trans hscopes)

/-- **A type in a type is balanced** if its members are. -/
theorem balances_type {w : Writer} (hw : w.scope = some .imports ∨ w.scope = some .type)
    (h : TypeHeading) {ops : List Op} {p : Prop}
    (hops : ∀ v : Writer, v.InType h.kind → v.Balances ops p) :
    w.Balances (.openType h :: ops ++ [.closeType]) p := by
  have hbody := hops (w.after (.openType h)) ⟨rfl, rfl⟩
  refine (Balances.enclosed (.openType h) .closeType Iff.rfl hbody ?_).congr ?_
  · intro v hscopes hkinds
    exact ⟨congrArg List.head? hscopes, congrArg List.tail hscopes, congrArg List.tail hkinds⟩
  · exact (and_iff_right hw).symm

theorem balances_members {ms : List Member} {kind : TypeKind}
    (h : ∀ m ∈ ms, ∀ w : Writer, w.InType kind → w.Balances m.ops (m.Legal kind)) {w : Writer}
    (hw : w.InType kind) : w.Balances (Member.opsOfAll ms) (∀ m ∈ ms, m.Legal kind) := by
  induction ms generalizing w with
  | nil => exact (Balances.nothing w).congr (iff_of_true (List.forall_mem_nil _) trivial)
  | cons m ms ih =>
      obtain ⟨hm, hms⟩ := List.forall_mem_cons.mp h
      refine ((hm w hw).append fun w' hscopes hkinds => ih hms ?_).congr List.forall_mem_cons
      exact ⟨(congrArg List.head? hscopes).trans hw.1, (congrArg List.head? hkinds).trans hw.2⟩

/-- **A member can be written exactly if it is legal**, wherever the type is that it is in. -/
theorem balances_ops (m : Member) :
    ∀ (kind : TypeKind) (w : Writer), w.InType kind → w.Balances m.ops (m.Legal kind) := by
  induction m with
  | field f =>
      intro kind w hw
      refine (Balances.single (.field f) rfl rfl).congr ?_
      exact iff_of_true (List.forall_mem_singleton.mpr id) hw.1
  | abstract h =>
      intro kind w hw
      refine (Balances.single (.declareMethod h) rfl rfl).congr ?_
      refine List.forall_mem_singleton.trans ?_
      exact (Bool.not_eq_true _).to_iff.trans (and_iff_right hw.1).symm
  | method h body =>
      intro kind w hw
      exact (balances_method hw h body).congr List.forall_mem_singleton
  | nested h members ih =>
      intro kind w hw
      rw [Member.ops]
      refine (balances_type (Or.inr hw.1) h ?_).congr Member.legal_nested_iff
      exact fun v hv => balances_members (fun m hm => ih m hm h.kind) hv

end Writer

/-! ## Files -/

namespace CompilationUnit

/-- **The body of a file can be written exactly if none of its members is misplaced.** -/
theorem balances_body (u : CompilationUnit) :
    u.opened.Balances u.body.ops (∀ p ∈ u.body.placed, ¬p.2.Misplaced p.1) := by
  refine (Writer.balances_type (Or.inl rfl) u.body.heading fun v hv =>
    Writer.balances_members (fun m _ => Writer.balances_ops m _) hv).congr ?_
  unfold TypeDefinition.placed
  rw [Member.placedAll_eq_flatMap]
  exact List.forall_mem_flatMap

/-- A file is finished as soon as its body has been written. -/
theorem exists_render_of_legal {u : CompilationUnit}
    (h : ∀ p ∈ u.body.placed, ¬p.2.Misplaced p.1) : ∃ text, u.render = .ok text := by
  obtain ⟨w, hw, hscopes, -⟩ := u.balances_body.accepted h
  have hdepth : w.depth = 0 := by
    unfold Writer.depth
    rw [hscopes]
    rfl
  refine ⟨w.text, ?_⟩
  rw [render_eq, hw]
  exact if_pos hdepth

end CompilationUnit

/-! ## Generated files -/

namespace Member

theorem legal_field (kind : TypeKind) (f : Field) : Legal kind (.field f) :=
  List.forall_mem_singleton.mpr id

theorem legal_abstract (kind : TypeKind) {h : MethodHeading} (hh : h.isConstructor = false) :
    Legal kind (.abstract h) :=
  List.forall_mem_singleton.mpr ((Bool.not_eq_true _).mpr hh)

/-- In a class, no method with a body is misplaced. -/
theorem legal_method (h : MethodHeading) (body : List Expr) :
    Legal .classType (.method h body) :=
  List.forall_mem_singleton.mpr fun hm => nomatch hm.1

end Member

namespace CompilationUnit

theorem exists_render_of_members {u : CompilationUnit}
    (h : ∀ m ∈ u.body.members, m.Legal u.body.heading.kind) : ∃ text, u.render = .ok text := by
  refine u.exists_render_of_legal ?_
  unfold TypeDefinition.placed
  rw [Member.placedAll_eq_flatMap]
  exact List.forall_mem_flatMap.mpr h

end CompilationUnit

theorem Trait.exists_render_interfaceFile (t : Trait) (c : Config) :
    ∃ text, (t.interfaceFile c).render = .ok text := by
  refine CompilationUnit.exists_render_of_members fun m hm => ?_
  obtain ⟨method, -, rfl⟩ := List.mem_map.mp hm
  exact Member.legal_abstract _ rfl

theorem Trait.exists_render_delegateFile (t : Trait) (c : Config) :
    ∃ text, (t.delegateFile c).render = .ok text := by
  have hforwarding : ∀ (m : TraitMethod),
      ∀ member ∈ (if m.isFinal then [] else [forwardingMember m]), member.Legal .classType := by
    intro m member hmember
    split at hmember
    · exact absurd hmember List.not_mem_nil
    · exact List.mem_singleton.mp hmember ▸ Member.legal_method _ _
  refine CompilationUnit.exists_render_of_members ?_
  refine List.forall_mem_cons.mpr ⟨Member.legal_field _ _, List.forall_mem_cons.mpr
    ⟨Member.legal_method _ _, List.forall_mem_flatMap.mpr fun m _ => ?_⟩⟩
  unfold delegateMembers
  cases m.kind with
  | selfAccessor => exact List.forall_mem_singleton.mpr (Member.legal_method _ _)
  | abstract => exact hforwarding m
  | concrete =>
      exact List.forall_mem_append.mpr
        ⟨hforwarding m, List.forall_mem_singleton.mpr (Member.legal_method _ _)⟩

theorem Host.exists_render_superclassFile (h : Host) (c : Config) :
    ∃ text, (h.superclassFile c).render = .ok text := by
  refine CompilationUnit.exists_render_of_members ?_
  refine List.forall_mem_append.mpr ⟨List.forall_mem_append.mpr ⟨?_, ?_⟩, ?_⟩
  · exact List.forall_mem_map.mpr fun _ _ => Member.legal_field _ _
  · exact List.forall_mem_map.mpr fun _ _ => Member.legal_field _ _
  · refine List.forall_mem_map.mpr fun g _ => ?_
    unfold dispatchMember
    dsimp only
    split
    · exact Member.legal_abstract _ rfl
    · exact Member.legal_method _ _

/--
**Writing a plan fails exactly if some member is misplaced.**

That is a constructor without a body, at any place in the tree, or a constructor or
a method with a body directly in an interface, unless the method is static. No such
member is ever generated for a trait or a host, whatever the options are.
-/
theorem CompilationUnit.render_fails_iff_misplaced :
    (∀ u : CompilationUnit,
        (∃ e, u.render = .error e) ↔ ∃ p ∈ u.body.placed, p.2.Misplaced p.1)
      ∧ (∀ (t : Trait) (c : Config), (∃ text, (t.interfaceFile c).render = .ok text)
        ∧ ∃ text, (t.delegateFile c).render = .ok text)
      ∧ ∀ (h : Host) (c : Config), ∃ text, (h.superclassFile c).render = .ok text := by
  refine ⟨fun u => ⟨?_, ?_⟩, fun t c => ⟨t.exists_render_interfaceFile c,
    t.exists_render_delegateFile c⟩, fun h c => h.exists_render_superclassFile c⟩
  · rintro ⟨e, he⟩
    by_contra hn
    obtain ⟨text, htext⟩ := u.exists_render_of_legal fun p hp hm => hn ⟨p, hp, hm⟩
    rw [htext] at he
    cases he
  · rintro ⟨p, hp, hm⟩
    obtain ⟨e, he⟩ := u.balances_body.refused fun hall => hall p hp hm
    refine ⟨e, ?_⟩
    rw [u.render_eq, he]
    rfl

end TraitWeaver
