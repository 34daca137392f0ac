import TraitWeaver.Proofs.Resolvable

/-!
# What one member gains a trait

The loop over the members of a trait hands on all that was made of them so far, but a
member hardly looks at it. It adds something behind what is there, and the only thing
that it asks is whether one of the methods is a self accessor already. An interface asks
for the methods that are there, and no more.

`Gains` and `InterfaceGains` say exactly what is added in each case. What a trait comes to
have, what is reported on the way and what a member that is out of order can spoil are
questions about these few cases, and about nothing else in the loops.
-/

namespace TraitWeaver

/-! ## Parts on top of parts -/

namespace TraitParts

/-- Some parts, and what is added behind each of them. -/
def append (before gain : TraitParts) : TraitParts :=
  ⟨before.methods ++ gain.methods, before.constants ++ gain.constants,
    before.interfaces ++ gain.interfaces, before.diagnostics ++ gain.diagnostics⟩

/-- One method, and what is reported about it. -/
def ofMethod (m : TraitMethod) (ds : List Diagnostic) : TraitParts := ⟨[m], [], [], ds⟩

/-- Nothing but a report. -/
def ofReport (d : Diagnostic) : TraitParts := ⟨[], [], [], [d]⟩

@[simp] theorem append_empty (parts : TraitParts) : parts.append .empty = parts := by
  simp [append, empty]

theorem report_eq_append (parts : TraitParts) (d : Diagnostic) :
    parts.report d = parts.append (.ofReport d) := by
  simp [report, append, ofReport]

theorem addMethod_eq_append (parts : TraitParts) (m : TraitMethod) :
    parts.addMethod m = parts.append (.ofMethod m []) := by
  simp [addMethod, append, ofMethod]

theorem addMethod_report_eq_append (parts : TraitParts) (d : Diagnostic) (m : TraitMethod) :
    (parts.report d).addMethod m = parts.append (.ofMethod m [d]) := by
  simp [report, addMethod, append, ofMethod]

end TraitParts

/-! ## Members -/

/-- A method with a body is concrete, whatever else is said of it. -/
def MethodDecl.ordinaryKind (d : MethodDecl) : MethodKind :=
  if d.has .abstract then .abstract else .concrete

theorem MethodDecl.ordinaryKind_ne (d : MethodDecl) : d.ordinaryKind ≠ .selfAccessor := by
  unfold ordinaryKind
  split
  · simp
  · simp

/-- The method can be the self accessor of a trait whose interface has this name: it is declared as
one, it is abstract and without parameters, and it returns the interface, not an array of it. -/
structure MethodDecl.GivesHost (d : MethodDecl) (interfaceName : String) : Prop where
  declared : d.selfAccessor = true
  abstract : d.has .abstract = true
  params : d.params = []
  returns : ∃ name args dims, d.returns.resolve = .ok (.declared name args dims)
    ∧ dims.depth = 0 ∧ name.qualified = interfaceName

namespace MemberDecl

/-- The member is a method that belongs to the trait alone. -/
def isOwn : MemberDecl → Bool
  | .method d => d.isOwn
  | _ => false

/-- The member is reported and left out: a static or private method, a method or a constant with an
unresolvable type, a field that is no constant, a constructor with parameters, or none of these. -/
def isSkipped : MemberDecl → Bool
  | .method d => d.isOwn || !d.resolvable
  | .constructor params => !params.isEmpty
  | .field d => !(d.has .public && d.has .static && d.has .final && d.type.resolvable)
  | .other _ _ => true

/-- The method that the member gives a trait with this qualifier: one that is neither static nor
private and that resolves there. -/
def composable? (q : String) : MemberDecl → Option MethodDecl
  | .method d => if !d.isOwn && (d.resolveIn q []).isOk then some d else none
  | _ => none

theorem composable?_eq_some_iff {q : String} {member : MemberDecl} {d : MethodDecl} :
    member.composable? q = some d ↔ member = .method d ∧ member.isSkipped = false := by
  cases member with
  | method d' =>
      show (if !d'.isOwn && (d'.resolveIn q []).isOk then some d' else none) = some d ↔
        _ ∧ (d'.isOwn || !d'.resolvable) = false
      rw [d'.isOk_resolveIn]
      cases d'.isOwn <;> cases d'.resolvable <;> simp
  | constructor _ | field _ | other _ _ => simp [composable?]

theorem composable?_method (q : String) {d : MethodDecl} (h : (method d).isSkipped = false) :
    (method d).composable? q = some d :=
  composable?_eq_some_iff.mpr ⟨rfl, h⟩

end MemberDecl

namespace TraitContext

/-- Where a member is reported. -/
def placeOf (c : TraitContext) : MemberDecl → String
  | .method d => c.place d.name
  | .constructor _ => c.place "<init>"
  | .field d => c.place d.name
  | .other name _ => if name = "" then c.name else c.place name

/-- **What a member adds** to a trait, which has a self accessor already or not. -/
inductive Gains (c : TraitContext) (hadAccessor : Bool) : MemberDecl → TraitParts → Prop where
  /-- Only a method of the trait's own is no error. -/
  | skipped {member : MemberDecl} {x : Diagnostic} : member.isSkipped = true →
      x.location = some (c.placeOf member) → x.isError = !member.isOwn →
      Gains c hadAccessor member (.ofReport x)
  | ordinary {d : MethodDecl} {m : TraitMethod} : (MemberDecl.method d).isSkipped = false →
      d.resolveIn c.qualifier [] = .ok m → d.selfAccessor = false →
      Gains c hadAccessor (.method d) (.ofMethod { m with kind := d.ordinaryKind } [])
  /-- It is meant to be the self accessor and is not. -/
  | refused {d : MethodDecl} {m : TraitMethod} {x : Diagnostic} :
      (MemberDecl.method d).isSkipped = false → d.resolveIn c.qualifier [] = .ok m →
      d.selfAccessor = true → ¬(d.GivesHost c.interfaceName ∧ hadAccessor = false) →
      x.location = some (c.place d.name) → x.isError = true →
      Gains c hadAccessor (.method d) (.ofMethod { m with kind := d.ordinaryKind } [x])
  | accessor {d : MethodDecl} {m : TraitMethod} : (MemberDecl.method d).isSkipped = false →
      d.resolveIn c.qualifier [] = .ok m → d.GivesHost c.interfaceName → hadAccessor = false →
      Gains c hadAccessor (.method d) (.ofMethod { m with kind := .selfAccessor } [])
  | constant {d : FieldDecl} {type : TypeRef} : (MemberDecl.field d).isSkipped = false →
      d.type.resolve = .ok type →
      Gains c hadAccessor (.field d) ⟨[], [⟨d.name, type⟩], [], []⟩
  | constructor : Gains c hadAccessor (.constructor []) .empty

end TraitContext

/-- **A member gives a method if it is one and not skipped**, and the method is the declared one. -/
theorem TraitContext.Gains.methods {c : TraitContext} {hadAccessor : Bool} {member : MemberDecl}
    {gain : TraitParts} (h : c.Gains hadAccessor member gain) :
    List.Forall₂ (fun d m => d.resolveIn c.qualifier [] = .ok { m with kind := .abstract })
        (member.composable? c.qualifier).toList gain.methods
      ∧ gain.interfaces = [] := by
  have hone : ∀ {d : MethodDecl} {m : TraitMethod}, (MemberDecl.method d).isSkipped = false →
      d.resolveIn c.qualifier [] = .ok m → ∀ kind,
      List.Forall₂ (fun d m => d.resolveIn c.qualifier [] = .ok { m with kind := .abstract })
        ((MemberDecl.method d).composable? c.qualifier).toList [{ m with kind }] := by
    intro d m hkept hm kind
    rw [MemberDecl.composable?_method c.qualifier hkept]
    exact .cons (d.resolveIn_withKind hm kind) .nil
  cases h with
  | skipped hskipped _ _ =>
      have hnone : member.composable? c.qualifier = none := by
        refine Option.eq_none_iff_forall_ne_some.mpr fun d hd => ?_
        rw [(MemberDecl.composable?_eq_some_iff.mp hd).2] at hskipped
        cases hskipped
      rw [hnone]
      exact ⟨.nil, rfl⟩
  | ordinary hkept hm _ => exact ⟨hone hkept hm _, rfl⟩
  | refused hkept hm _ _ _ _ => exact ⟨hone hkept hm _, rfl⟩
  | accessor hkept hm _ _ => exact ⟨hone hkept hm _, rfl⟩
  | constant _ _ => exact ⟨.nil, rfl⟩
  | constructor => exact ⟨.nil, rfl⟩

/-! ### The self accessor -/

theorem TypeRef.qualify_declared (name : DeclaredName) (args : List TypeRef) (dims : Dims)
    (q : String) :
    (declared name args dims).qualify q = .declared name (args.map (·.qualify q)) dims :=
  rewrite_declared _ name args dims

/-- A variable stays a variable under a qualifier. -/
theorem TypeRef.declaredName?_qualify_param (var : TypeVar) (upper : List TypeRef)
    (lower : Option TypeRef) (dims : Dims) (q : String) :
    ((param var upper lower dims).qualify q).declaredName? = none := by
  unfold qualify
  rw [rewrite_param]
  split
  · next r hr =>
    dsimp only at hr
    split at hr
    · cases hr
    · cases hr
      rfl
  · rfl

namespace TraitContext

variable {c : TraitContext} {d : MethodDecl} {m : TraitMethod}

theorem returnsInterface_iff (hm : d.resolveIn c.qualifier [] = .ok m) :
    (m.returns.dims.depth = 0 ∧
        m.returns.declaredName?.map (·.qualified) = some c.interfaceName) ↔
      ∃ name args dims, d.returns.resolve = .ok (.declared name args dims) ∧ dims.depth = 0
        ∧ name.qualified = c.interfaceName := by
  have hreturns := (MethodDecl.resolves_of_resolveIn hm).1.returns
  obtain ⟨r, hr, he⟩ := SourceType.resolveIn_eq_ok_iff.mp hreturns
  -- nothing is put for parameters in a method of the trait itself
  rw [show r.instantiate [] = r from rfl] at he
  rw [he, hr]
  cases r with
  | declared name args dims =>
      rw [TypeRef.qualify_declared]
      simp only [TypeRef.dims, TypeRef.declaredName?, TypeRef.declared?, Option.map_some,
        Option.some.injEq, Except.ok.injEq, TypeRef.declared.injEq]
      refine ⟨?_, ?_⟩
      · rintro ⟨hdepth, hname⟩
        exact ⟨name, args, dims, ⟨rfl, rfl, rfl⟩, hdepth, hname⟩
      · rintro ⟨_, _, _, ⟨rfl, rfl, rfl⟩, hdepth, hname⟩
        exact ⟨hdepth, hname⟩
  | param var upper lower dims =>
      rw [TypeRef.declaredName?_qualify_param]
      simp

/-- **Nothing stands against a self accessor exactly if it gives the host and is the first.** What
does stand against one is an error at the method. -/
theorem accessorFault?_cases (parts : TraitParts) (hd : d.selfAccessor = true)
    (hm : d.resolveIn c.qualifier [] = .ok m) :
    (c.accessorFault? parts d m = none ∧ d.GivesHost c.interfaceName ∧ parts.hasAccessor = false)
      ∨ ∃ x, c.accessorFault? parts d m = some x ∧ x.location = some (c.place d.name)
        ∧ x.isError = true ∧ ¬(d.GivesHost c.interfaceName ∧ parts.hasAccessor = false) := by
  have hreturns := returnsInterface_iff hm
  unfold accessorFault?
  dsimp only
  by_cases hshape : (!d.has .abstract || !d.params.isEmpty) = true
  · rw [if_pos hshape]
    refine Or.inr ⟨_, rfl, rfl, rfl, ?_⟩
    rintro ⟨h, -⟩
    rw [h.abstract, h.params] at hshape
    cases hshape
  · rw [if_neg hshape]
    by_cases hret : (m.returns.dims.depth = 0 &&
        (m.returns.declaredName?.map (·.qualified)) == some c.interfaceName) = true
    · rw [if_neg (by simp [hret])]
      have hgives : d.GivesHost c.interfaceName := by
        simp only [Bool.or_eq_true, Bool.not_eq_true', not_or, Bool.not_eq_false,
          List.isEmpty_iff] at hshape
        simp only [Bool.and_eq_true, decide_eq_true_eq, beq_iff_eq] at hret
        exact ⟨hd, hshape.1, hshape.2, hreturns.mp hret⟩
      by_cases hfirst : parts.hasAccessor = true
      · rw [if_pos hfirst]
        refine Or.inr ⟨_, rfl, rfl, rfl, ?_⟩
        rintro ⟨-, hnone⟩
        rw [hfirst] at hnone
        cases hnone
      · rw [if_neg hfirst]
        exact Or.inl ⟨rfl, hgives, Bool.eq_false_iff.mpr hfirst⟩
    · rw [if_pos (by simp [hret])]
      refine Or.inr ⟨_, rfl, rfl, rfl, ?_⟩
      rintro ⟨h, -⟩
      apply hret
      have := hreturns.mpr h.returns
      simp [this.1, this.2]

/-! ### One turn -/

theorem exists_gains_addMethod (c : TraitContext) (parts : TraitParts) (d : MethodDecl) :
    ∃ gain, c.Gains parts.hasAccessor (.method d) gain ∧ ∀ ds,
      c.addMethod { parts with diagnostics := ds } d =
        TraitParts.append { parts with diagnostics := ds } gain := by
  have hskips : (MemberDecl.method d).isSkipped = (d.isOwn || !d.resolvable) := rfl
  unfold addMethod
  by_cases hown : d.isOwn = true
  · refine ⟨_, ?_, fun ds => (if_pos hown).trans (TraitParts.report_eq_append _ _)⟩
    exact .skipped (by rw [hskips, hown]; rfl) rfl (by rw [MemberDecl.isOwn, hown]; rfl)
  · simp only [if_neg hown]
    rw [Bool.not_eq_true] at hown
    cases hr : d.resolveIn c.qualifier [] with
    | error e =>
        have hunresolvable : d.resolvable = false := by
          refine Bool.eq_false_iff.mpr fun h => ?_
          obtain ⟨m, hm⟩ := (MethodDecl.resolvable_iff c.qualifier []).mp h
          rw [hr] at hm
          cases hm
        refine ⟨_, ?_, fun ds => TraitParts.report_eq_append _ _⟩
        exact .skipped (by rw [hskips, hown, hunresolvable]; rfl) rfl
          (by rw [MemberDecl.isOwn, hown]; rfl)
    | ok m =>
        have hkept : (MemberDecl.method d).isSkipped = false := by
          rw [hskips, hown, (MethodDecl.resolvable_iff c.qualifier []).mpr ⟨m, hr⟩]
          rfl
        dsimp only
        by_cases hself : d.selfAccessor = true
        · simp only [if_pos hself]
          -- reports that were made before do not matter to whether there is an accessor
          have hblind : ∀ ds, c.accessorFault? { parts with diagnostics := ds } d m =
              c.accessorFault? parts d m := fun _ => rfl
          rcases accessorFault?_cases parts hself hr with
            ⟨hnone, hgives, hfirst⟩ | ⟨x, hsome, hplace, herror, hnot⟩
          · refine ⟨_, .accessor hkept hr hgives hfirst, fun ds => ?_⟩
            rw [hblind, hnone]
            exact TraitParts.addMethod_eq_append _ _
          · refine ⟨_, .refused hkept hr hself hnot hplace herror, fun ds => ?_⟩
            rw [hblind, hsome]
            exact TraitParts.addMethod_report_eq_append _ _ _
        · simp only [if_neg hself]
          refine ⟨_, .ordinary hkept hr (Bool.eq_false_iff.mpr hself), fun ds => ?_⟩
          exact TraitParts.addMethod_eq_append _ _

theorem exists_gains_addField (c : TraitContext) (parts : TraitParts) (d : FieldDecl) :
    ∃ gain, c.Gains parts.hasAccessor (.field d) gain ∧ ∀ ds,
      c.addField { parts with diagnostics := ds } d =
        TraitParts.append { parts with diagnostics := ds } gain := by
  have hskips : (MemberDecl.field d).isSkipped =
      !(d.has .public && d.has .static && d.has .final && d.type.resolvable) := rfl
  unfold addField
  by_cases hconst : (d.has .public && d.has .static && d.has .final) = true
  · simp only [if_pos hconst]
    cases hr : d.type.resolve with
    | error e =>
        refine ⟨_, ?_, fun ds => TraitParts.report_eq_append _ _⟩
        exact .skipped (by rw [hskips, hconst, SourceType.resolvable, hr]; rfl) rfl rfl
    | ok type =>
        refine ⟨_, .constant (by rw [hskips, hconst, SourceType.resolvable, hr]; rfl) hr,
          fun ds => ?_⟩
        simp [TraitParts.append]
  · simp only [if_neg hconst]
    refine ⟨_, ?_, fun ds => TraitParts.report_eq_append _ _⟩
    exact .skipped (by rw [hskips, Bool.eq_false_iff.mpr hconst]; rfl) rfl rfl

/-- **A member adds one of these things behind what is there**, whatever has been reported. -/
theorem exists_gains_addMember (c : TraitContext) (parts : TraitParts) (member : MemberDecl) :
    ∃ gain, c.Gains parts.hasAccessor member gain ∧ ∀ ds,
      c.addMember { parts with diagnostics := ds } member =
        TraitParts.append { parts with diagnostics := ds } gain := by
  cases member with
  | method d => exact exists_gains_addMethod c parts d
  | constructor params =>
      cases params with
      | nil => exact ⟨_, .constructor, fun ds => (TraitParts.append_empty _).symm⟩
      | cons p ps =>
          refine ⟨_, ?_, fun ds => TraitParts.report_eq_append _ _⟩
          exact .skipped rfl rfl rfl
  | field d => exact exists_gains_addField c parts d
  | other name description =>
      refine ⟨_, ?_, fun ds => TraitParts.report_eq_append _ _⟩
      exact .skipped rfl rfl rfl

theorem exists_addMember_eq (c : TraitContext) (parts : TraitParts) (member : MemberDecl) :
    ∃ gain, c.Gains parts.hasAccessor member gain
      ∧ c.addMember parts member = parts.append gain := by
  obtain ⟨gain, hgains, hadd⟩ := c.exists_gains_addMember parts member
  exact ⟨gain, hgains, hadd parts.diagnostics⟩

end TraitContext

/-! ## Interfaces -/

/-- Of some methods, those are taken whose signature is not that of a method before them, be it one
that was there or one that was taken. -/
inductive TraitMethod.Newcomers : List TraitMethod → List TraitMethod → List TraitMethod → Prop where
  | nil (present : List TraitMethod) : Newcomers present [] []
  | known {present ms new : List TraitMethod} {m : TraitMethod} : m.key ∈ present.map (·.key) →
      Newcomers present ms new → Newcomers present (m :: ms) new
  | new {present ms new : List TraitMethod} {m : TraitMethod} : m.key ∉ present.map (·.key) →
      Newcomers (present ++ [m]) ms new → Newcomers present (m :: ms) (m :: new)

/-- Nothing is taken that was not offered, and the order stays. -/
theorem TraitMethod.Newcomers.sublist {present ms new : List TraitMethod}
    (h : Newcomers present ms new) : new.Sublist ms := by
  induction h with
  | nil present => exact List.Sublist.refl []
  | known _ _ ih => exact ih.cons _
  | new _ _ ih => exact ih.cons_cons _

open TraitMethod in
/-- Of the methods of an interface, the newcomers are added. -/
theorem TraitParts.exists_newcomers (ms : List TraitMethod) (parts : TraitParts) :
    ∃ new, Newcomers parts.methods ms new ∧ ∀ ds,
      ms.foldl inherit { parts with diagnostics := ds } =
        append { parts with diagnostics := ds } ⟨new, [], [], []⟩ := by
  induction ms generalizing parts with
  | nil => exact ⟨[], .nil _, fun ds => by simp [append]⟩
  | cons m ms ih =>
      by_cases hm : m.key ∈ parts.methods.map (·.key)
      · have hany : parts.methods.any (·.key = m.key) = true := by
          obtain ⟨m', hm', he⟩ := List.mem_map.mp hm
          exact List.any_eq_true.mpr ⟨m', hm', decide_eq_true he⟩
        obtain ⟨new, hnew, heq⟩ := ih parts
        refine ⟨new, .known hm hnew, fun ds => ?_⟩
        rw [List.foldl_cons, show inherit { parts with diagnostics := ds } m = _ from if_pos hany]
        exact heq ds
      · have hany : ¬parts.methods.any (·.key = m.key) = true := by
          intro h
          obtain ⟨m', hm', he⟩ := List.any_eq_true.mp h
          exact hm (List.mem_map.mpr ⟨m', hm', of_decide_eq_true he⟩)
        obtain ⟨new, hnew, heq⟩ := ih (parts.addMethod m)
        refine ⟨m :: new, .new hm hnew, fun ds => ?_⟩
        rw [List.foldl_cons, show inherit { parts with diagnostics := ds } m = _ from if_neg hany]
        refine (heq ds).trans ?_
        simp [append, addMethod]

/-- **What an interface adds** to a trait with these methods: it is reported and left out as a whole,
or it is there with what it has of new methods. -/
inductive TraitContext.InterfaceGains (c : TraitContext) (present : List TraitMethod) :
    InterfaceDecl → TraitParts → Prop where
  | skipped {i : InterfaceDecl} {x : Diagnostic} : i.resolvable = false →
      x.location = some c.name → x.isError = true → InterfaceGains c present i (.ofReport x)
  | accepted {i : InterfaceDecl} {ti : TraitInterface} {ms new : List TraitMethod} :
      i.resolveIn c.qualifier = .ok (ti, ms) → TraitMethod.Newcomers present ms new →
      InterfaceGains c present i ⟨new, [], [ti], []⟩

theorem TraitContext.exists_gains_addInterface (c : TraitContext) (parts : TraitParts)
    (i : InterfaceDecl) : ∃ gain, c.InterfaceGains parts.methods i gain ∧ ∀ ds,
      c.addInterface { parts with diagnostics := ds } i =
        TraitParts.append { parts with diagnostics := ds } gain := by
  unfold addInterface
  cases hr : i.resolveIn c.qualifier with
  | error e =>
      have hunresolvable : i.resolvable = false := by
        refine Bool.eq_false_iff.mpr fun h => ?_
        obtain ⟨r, hr'⟩ := (InterfaceDecl.resolvable_iff c.qualifier).mp h
        rw [hr] at hr'
        cases hr'
      refine ⟨_, ?_, fun ds => TraitParts.report_eq_append _ _⟩
      exact .skipped hunresolvable rfl rfl
  | ok r =>
      obtain ⟨ti, ms⟩ := r
      obtain ⟨new, hnew, heq⟩ := TraitParts.exists_newcomers ms parts
      refine ⟨_, .accepted hr hnew, fun ds => ?_⟩
      dsimp only
      rw [heq ds]
      simp [TraitParts.append]

theorem TraitContext.exists_addInterface_eq (c : TraitContext) (parts : TraitParts)
    (i : InterfaceDecl) : ∃ gain, c.InterfaceGains parts.methods i gain
      ∧ c.addInterface parts i = parts.append gain := by
  obtain ⟨gain, hgains, hadd⟩ := c.exists_gains_addInterface parts i
  exact ⟨gain, hgains, hadd parts.diagnostics⟩

end TraitWeaver
