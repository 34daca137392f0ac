import TraitWeaver.Proofs.Delegation
import TraitWeaver.Proofs.Turns

/-!
# The self accessor

A method that is declared as self accessor gives the host only if its shape is right, and
only the first one counts. The loop over the members knows about the ones before it by
whether the trait has a self accessor already.

That is the same as asking whether one of the members before it could have been one
(`hasAccessor_foldl_addMember`), because a method that is refused leaves nothing behind
that would be taken for a self accessor (`Gains.hasAccessor_iff`). So which member is the
self accessor is a question about the declaration alone.
-/

namespace TraitWeaver

/-- The member gives the trait a method that can be its self accessor. -/
def MemberDecl.GivesHost (member : MemberDecl) (c : TraitContext) : Prop :=
  ∃ d, member.composable? c.qualifier = some d ∧ d.GivesHost c.interfaceName

/-- The member at this place is the first that gives the host. -/
def TraitDecl.IsAccessor (d : TraitDecl) (c : TraitContext) (i : Nat) : Prop :=
  (∃ member, d.members[i]? = some member ∧ member.GivesHost c)
    ∧ ∀ member ∈ d.members.take i, ¬member.GivesHost c

/-- What the trait has of a method that it declares, and what is reported about it, if it is the self
accessor or not. -/
structure MethodDecl.TakenAs (d : MethodDecl) (c : TraitContext) (accessor : Prop)
    (m : TraitMethod) (ds : List Diagnostic) : Prop where
  /-- It is the declared method, whatever its kind. -/
  resolved : d.resolveIn c.qualifier [] = .ok { m with kind := .abstract }
  own : m.isInherited = false
  kind_iff : m.kind = .selfAccessor ↔ accessor
  ordinary : ¬accessor → m.kind = d.ordinaryKind
  /-- One that is declared as self accessor, but is none, is reported where it is. -/
  refused : ¬accessor → d.selfAccessor = true →
    ∃ x, ds = [x] ∧ x.isError = true ∧ x.location = some (c.place d.name)
  silent : accessor ∨ d.selfAccessor = false → ds = []

open TraitParts

namespace TraitContext

variable {c : TraitContext} {hadAccessor : Bool} {member : MemberDecl} {gain : TraitParts}

/-- **What a member adds has a self accessor if it gives the host and there was none.** -/
theorem Gains.hasAccessor_iff (h : c.Gains hadAccessor member gain) :
    gain.hasAccessor = true ↔ member.GivesHost c ∧ hadAccessor = false := by
  have hordinary : ∀ (d : MethodDecl) (m : TraitMethod) (ds : List Diagnostic),
      (ofMethod { m with kind := d.ordinaryKind } ds).hasAccessor = false := by
    intro d m ds
    simp [ofMethod, hasAccessor, d.ordinaryKind_ne]
  have hmethod : ∀ {d : MethodDecl}, (MemberDecl.method d).isSkipped = false →
      ((MemberDecl.method d).GivesHost c ↔ d.GivesHost c.interfaceName) := by
    intro d hkept
    simp [MemberDecl.GivesHost, MemberDecl.composable?_method c.qualifier hkept]
  cases h with
  | skipped hskipped _ _ =>
      refine iff_of_false (by simp [ofReport, hasAccessor]) ?_
      rintro ⟨⟨d, hd, -⟩, -⟩
      rw [(MemberDecl.composable?_eq_some_iff.mp hd).2] at hskipped
      cases hskipped
  | ordinary hkept _ hself =>
      rw [hmethod hkept]
      refine iff_of_false (by simp [hordinary]) ?_
      rintro ⟨hgives, -⟩
      rw [hgives.declared] at hself
      cases hself
  | refused hkept _ _ hnot _ _ =>
      rw [hmethod hkept]
      exact iff_of_false (by simp [hordinary]) hnot
  | accessor hkept _ hgives hfirst =>
      rw [hmethod hkept]
      exact iff_of_true (by simp [ofMethod, hasAccessor]) ⟨hgives, hfirst⟩
  | constant _ _ | constructor =>
      refine iff_of_false (by simp [hasAccessor, TraitParts.empty]) ?_
      rintro ⟨⟨_, hd, -⟩, -⟩
      cases hd

/-- **There is a self accessor as soon as a member gives the host.** -/
theorem hasAccessor_foldl_addMember (c : TraitContext) (members : List MemberDecl)
    (parts : TraitParts) : (members.foldl c.addMember parts).hasAccessor = true ↔
      parts.hasAccessor = true ∨ ∃ member ∈ members, member.GivesHost c := by
  induction members generalizing parts with
  | nil => simp
  | cons member members ih =>
      obtain ⟨gain, hgains, hadd⟩ := c.exists_addMember_eq parts member
      have hone : (c.addMember parts member).hasAccessor = true ↔
          parts.hasAccessor = true ∨ member.GivesHost c := by
        have happend : (parts.append gain).hasAccessor =
            (parts.hasAccessor || gain.hasAccessor) := List.any_append
        rw [hadd, happend, Bool.or_eq_true, hgains.hasAccessor_iff]
        cases parts.hasAccessor with
        | false => simp
        | true => simp
      rw [List.foldl_cons, ih, hone, or_assoc]
      simp only [List.mem_cons, exists_eq_or_imp]

end TraitContext

namespace TraitDecl

variable {d : TraitDecl} {c : TraitContext} {i : Nat}

/-- The member that gives the host is the accessor if there was none before it. -/
theorem isAccessor_iff {member : MemberDecl} (hi : d.members[i]? = some member) :
    d.IsAccessor c i ↔ member.GivesHost c
      ∧ ((d.members.take i).foldl c.addMember .empty).hasAccessor = false := by
  have hbefore : ((d.members.take i).foldl c.addMember .empty).hasAccessor = false ↔
      ∀ member ∈ d.members.take i, ¬member.GivesHost c := by
    rw [← Bool.not_eq_true, c.hasAccessor_foldl_addMember]
    simp [TraitParts.hasAccessor, TraitParts.empty]
  rw [hbefore, IsAccessor, hi]
  simp only [Option.some.injEq, exists_eq_left']

/-- **A method that is not skipped is the self accessor if it is the first to give the host.** If not,
it has its ordinary kind, and is reported if it was meant to be one. -/
theorem exists_takenAs {member : MemberDecl} {decl : MethodDecl} (hi : d.members[i]? = some member)
    (hdecl : member.composable? c.qualifier = some decl) : ∃ m xs,
      (d.memberTurns c)[i]? = some (ofMethod m xs)
        ∧ decl.TakenAs c (d.IsAccessor c i) m xs := by
  obtain ⟨gain, hturn, hgains⟩ := d.exists_gains_of_members c hi
  have haccessor := isAccessor_iff (c := c) hi
  have hgives : member.GivesHost c ↔ decl.GivesHost c.interfaceName := by
    simp [MemberDecl.GivesHost, hdecl]
  rw [hgives] at haccessor
  obtain ⟨rfl, hkept⟩ := MemberDecl.composable?_eq_some_iff.mp hdecl
  cases hgains with
  | skipped hskipped _ _ =>
      rw [hkept] at hskipped
      cases hskipped
  | ordinary _ hm hself =>
      have hnot : ¬d.IsAccessor c i := by
        intro h
        rw [(haccessor.mp h).1.declared] at hself
        cases hself
      refine ⟨_, [], hturn, decl.resolveIn_withKind hm _, decl.isInherited_of_resolveIn hm _,
        iff_of_false decl.ordinaryKind_ne hnot, fun _ => rfl, fun _ h => ?_, fun _ => rfl⟩
      rw [h] at hself
      cases hself
  | refused _ hm hself hfault hplace herror =>
      have hnot : ¬d.IsAccessor c i := fun h => hfault (haccessor.mp h)
      refine ⟨_, _, hturn, decl.resolveIn_withKind hm _, decl.isInherited_of_resolveIn hm _,
        iff_of_false decl.ordinaryKind_ne hnot, fun _ => rfl,
        fun _ _ => ⟨_, rfl, herror, hplace⟩, ?_⟩
      rintro (h | h)
      · exact absurd h hnot
      · rw [hself] at h
        cases h
  | accessor _ hm hgivesHost hfirst =>
      have his : d.IsAccessor c i := haccessor.mpr ⟨hgivesHost, hfirst⟩
      exact ⟨_, [], hturn, decl.resolveIn_withKind hm _, decl.isInherited_of_resolveIn hm _,
        iff_of_true rfl his, fun h => absurd his h, fun h => absurd his h, fun _ => rfl⟩

/-- **What an interface gives is inherited.** -/
theorem inherited_of_gains {present : List TraitMethod} {interface : InterfaceDecl}
    {gain : TraitParts} (h : c.InterfaceGains present interface gain) :
    ∀ m ∈ gain.methods, m.isInherited = true ∧ m.kind ≠ .selfAccessor := by
  cases h with
  | skipped _ _ _ => exact fun m hm => absurd hm List.not_mem_nil
  | accepted hr hnew =>
      intro m hm
      have hms := hnew.sublist.subset hm
      obtain ⟨_, -, -, hfrom⟩ :=
        exists_rel_of_mem (InterfaceDecl.resolves_of_resolveIn hr).methods hms
      refine ⟨?_, InterfaceDecl.kind_ne_of_resolveIn hr m hms⟩
      rw [TraitMethod.isInherited, hfrom]
      rfl

/-- **One self accessor at most, and the right one**, in a declaration that resolves to this trait,
with these reports, when its members are checked in this context. -/
structure OneAccessor (d : TraitDecl) (c : TraitContext) (t : Trait) (ds : List Diagnostic) :
    Prop where
  /-- A method of the trait is from the turn of one member or interface. -/
  methods : t.methods = methodsOf (d.memberTurns c) ++ methodsOf (d.interfaceTurns c)
  reports : ds = reportsOf (d.memberTurns c) ++ reportsOf (d.interfaceTurns c)
  /-- Each method member that is not skipped gives one method. -/
  declared : ∀ (i : Nat) (member : MemberDecl) (decl : MethodDecl),
    d.members[i]? = some member → member.composable? c.qualifier = some decl → ∃ m xs,
      (d.memberTurns c)[i]? = some (ofMethod m xs)
        ∧ decl.TakenAs c (d.IsAccessor c i) m xs
  /-- No other member gives any. -/
  others : ∀ (i : Nat) (member : MemberDecl) (gain : TraitParts),
    d.members[i]? = some member → member.composable? c.qualifier = none →
    (d.memberTurns c)[i]? = some gain → gain.methods = []
  /-- What the interfaces give is inherited and no self accessor. -/
  inherited : ∀ gain ∈ d.interfaceTurns c, ∀ m ∈ gain.methods,
    m.isInherited = true ∧ m.kind ≠ .selfAccessor
  unique : (t.methods.filter (·.kind = .selfAccessor)).length ≤ 1

theorem oneAccessor_of_resolve {d : TraitDecl} {config : Config} {t : Trait}
    {ds : List Diagnostic} (h : d.resolve config = .ok (t, ds)) :
    d.OneAccessor (d.context config t.name) t ds := by
  have hunique := (backed_of_resolve h).accessor
  obtain ⟨name, typeParams, -, -, -, rfl, rfl⟩ := resolve_eq_ok_iff.mp h
  show d.OneAccessor (d.context config name) _ _
  refine ⟨?_, ?_, ?_, ?_, ?_, hunique⟩
  · rw [parts_eq_append]
    rfl
  · rw [parts_eq_append]
    rfl
  · exact fun i member decl hi hdecl => exists_takenAs hi hdecl
  · intro i member gain hi hnone hturn
    obtain ⟨gain', hturn', hgains⟩ := d.exists_gains_of_members (d.context config name) hi
    rw [hturn] at hturn'
    cases hturn'
    have hmethods := hgains.methods.1
    rw [hnone] at hmethods
    exact List.forall₂_nil_left_iff.mp hmethods
  · intro gain hgain
    obtain ⟨_, -, _, hgains⟩ := exists_gains_of_interfaceTurns hgain
    exact inherited_of_gains hgains

/-! ## A gate -/

/-- A trait with four methods that are meant to be its self accessor. The first is static, the second
gives many hosts, and the last comes too late. -/
def gate : TraitDecl :=
  let interface : SourceType := .declared "lib.GateTrait" []
  let meant (name : String) (modifiers : List Modifier) (returns : SourceType) : MemberDecl :=
    .method { MethodDecl.plain name modifiers returns with selfAccessor := true }
  { name := "lib.Gate"
    typeParams := []
    superclass := none
    interfaces := [⟨"lib.Named", [], [], [.plain "name" [.public, .abstract] .void]⟩]
    members :=
      [meant "first" [.static, .abstract] interface, meant "all" [.abstract] (.array interface),
        meant "host" [.abstract] interface, .method (.plain "swing" [.public] .void),
        meant "last" [.abstract] interface] }

theorem oneAccessor_gate :
    ∃ t ds, gate.resolve .bare = .ok (t, ds)
      ∧ gate.OneAccessor (gate.context .bare t.name) t ds
      ∧ t.methods.map (fun m => (m.name, m.kind)) = [("all", .abstract), ("host", .selfAccessor),
        ("swing", .concrete), ("last", .abstract), ("name", .abstract)]
      ∧ ds.map (·.location) = [some "lib.Gate.first", some "lib.Gate.all", some "lib.Gate.last"] := by
  have hresolve : (gate.resolve .bare).toOption.map (fun r =>
      (r.1.methods.map fun m => (m.name, m.kind), r.2.map (·.location))) =
      some ([("all", .abstract), ("host", .selfAccessor), ("swing", .concrete),
        ("last", .abstract), ("name", .abstract)],
        [some "lib.Gate.first", some "lib.Gate.all", some "lib.Gate.last"]) := by
    decide +kernel
  obtain ⟨⟨t, ds⟩, hr, he⟩ := Option.map_eq_some_iff.mp hresolve
  obtain ⟨hmethods, hreports⟩ := Prod.mk.inj he
  have hr := toOption_eq_some_iff.mp hr
  exact ⟨t, ds, hr, oneAccessor_of_resolve hr, hmethods, hreports⟩

end TraitDecl

end TraitWeaver
