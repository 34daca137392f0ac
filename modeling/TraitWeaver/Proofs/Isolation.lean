import TraitWeaver.Proofs.TraitResolution
import TraitWeaver.Proofs.Turns

/-!
# Bad members are isolated

A member or an interface that is not in order is reported and left out. Taking it out of
the declaration must then come to the same trait, with one report less.

Between two members, a loop only hands on what the trait has so far. So the two runs, with
the bad member and without it, are at the same parts all the time, except for what has been
reported (`OnlyAdds.turns_keepPlaces`). Reports are never looked at, so the turns of the
members that stay are the same turns in both runs, and what is reported in the shorter one
is what these turns report.
-/

namespace TraitWeaver

/-! ## Places of a list -/

section

variable {α : Type}

/-- What a list has at the places that are kept. -/
def keepPlaces (keep : Nat → Bool) (l : List α) : List α :=
  (l.zipIdx.filter fun e => keep e.2).map Prod.fst

theorem keepPlaces_cons (keep : Nat → Bool) (a : α) (l : List α) :
    keepPlaces keep (a :: l) =
      if keep 0 then a :: keepPlaces (fun i => keep (i + 1)) l
      else keepPlaces (fun i => keep (i + 1)) l := by
  have htail : ((l.zipIdx 1).filter fun e => keep e.2).map Prod.fst =
      keepPlaces (fun i => keep (i + 1)) l := by
    rw [List.zipIdx_succ, List.filter_map, List.map_map]
    rfl
  unfold keepPlaces
  rw [List.zipIdx_cons, List.filter_cons]
  split
  · exact congrArg (a :: ·) htail
  · exact htail

end

/-! ## Two runs -/

namespace TraitParts

variable {α : Type} {step : TraitParts → α → TraitParts}

/-- **If what is taken away would only be reported, the others have the same turns** as before,
whatever has been reported before them, and in the end only the reports can differ. -/
theorem OnlyAdds.turns_keepPlaces (h : OnlyAdds step) {keep : Nat → Bool} {as : List α}
    (parts : TraitParts) (ds : List Diagnostic)
    (hskip : ∀ i a, as[i]? = some a → keep i = false →
      ∀ before, ∃ x, step before a = before.report x) :
    turns step { parts with diagnostics := ds } (keepPlaces keep as) =
        keepPlaces keep (turns step parts as)
      ∧ ∃ ds', (keepPlaces keep as).foldl step { parts with diagnostics := ds } =
        { as.foldl step parts with diagnostics := ds' } := by
  induction as generalizing keep parts ds with
  | nil => exact ⟨rfl, ds, rfl⟩
  | cons a as ih =>
      have hskip' : ∀ i a', as[i]? = some a' → keep (i + 1) = false →
          ∀ before, ∃ x, step before a' = before.report x := fun i a' => hskip (i + 1) a'
      rw [turns, keepPlaces_cons, keepPlaces_cons, List.foldl_cons]
      cases hkeep : keep 0 with
      | true =>
          obtain ⟨gain, hgain⟩ := h parts a
          have hstep : step parts a = parts.append gain := hgain parts.diagnostics
          have hstep' : step { parts with diagnostics := ds } a =
              { parts.append gain with diagnostics := ds ++ gain.diagnostics } := hgain ds
          obtain ⟨hturns, hfold⟩ := ih (parts.append gain) (ds ++ gain.diagnostics) hskip'
          have hsince : (step { parts with diagnostics := ds } a).since
              { parts with diagnostics := ds } = gain := by
            rw [hgain ds, since_append]
          simp only [if_true, turns, List.foldl_cons]
          rw [hsince, hstep', hturns, hstep, since_append]
          exact ⟨rfl, hfold⟩
      | false =>
          obtain ⟨x, hx⟩ := hskip 0 a rfl hkeep parts
          simp only [Bool.false_eq_true, if_false]
          rw [hx]
          -- a report does not show in what is handed on under other reports
          exact ih (parts.report x) ds hskip'

end TraitParts

open TraitParts

/-! ## What is skipped -/

namespace TraitContext

variable {c : TraitContext}

theorem Gains.isSkipped_iff {hadAccessor : Bool} {member : MemberDecl} {gain : TraitParts}
    (h : c.Gains hadAccessor member gain) : member.isSkipped = true ↔
      ∃ x, gain = .ofReport x ∧ x.location = some (c.placeOf member)
        ∧ x.isError = !member.isOwn := by
  cases h with
  | skipped hskipped hplace herror =>
      exact iff_of_true hskipped ⟨_, rfl, hplace, herror⟩
  | ordinary hkept _ _ | refused hkept _ _ _ _ _ | accessor hkept _ _ _ | constant hkept _ =>
      refine iff_of_false (by simp [hkept]) ?_
      rintro ⟨x, hx, -⟩
      cases hx
  | constructor =>
      refine iff_of_false (by simp [MemberDecl.isSkipped]) ?_
      rintro ⟨x, hx, -⟩
      cases hx

theorem InterfaceGains.resolvable_iff {present : List TraitMethod} {i : InterfaceDecl}
    {gain : TraitParts} (h : c.InterfaceGains present i gain) : i.resolvable = false ↔
      ∃ x, gain = .ofReport x ∧ x.location = some c.name ∧ x.isError = true := by
  cases h with
  | skipped hskipped hplace herror =>
      exact iff_of_true hskipped ⟨_, rfl, hplace, herror⟩
  | accepted hresolve _ =>
      refine iff_of_false ?_ ?_
      · rw [(InterfaceDecl.resolvable_iff c.qualifier).mpr ⟨_, hresolve⟩]
        exact nofun
      · rintro ⟨x, hx, -⟩
        cases hx

theorem exists_report_of_isSkipped {member : MemberDecl} (h : member.isSkipped = true)
    (before : TraitParts) : ∃ x, c.addMember before member = before.report x := by
  obtain ⟨gain, hgains, hadd⟩ := c.exists_addMember_eq before member
  obtain ⟨x, rfl, -⟩ := hgains.isSkipped_iff.mp h
  exact ⟨x, hadd.trans (report_eq_append before x).symm⟩

theorem exists_report_of_not_resolvable {i : InterfaceDecl} (h : i.resolvable = false)
    (before : TraitParts) : ∃ x, c.addInterface before i = before.report x := by
  obtain ⟨gain, hgains, hadd⟩ := c.exists_addInterface_eq before i
  obtain ⟨x, rfl, -⟩ := hgains.resolvable_iff.mp h
  exact ⟨x, hadd.trans (report_eq_append before x).symm⟩

end TraitContext

/-! ## Declarations with less in them -/

namespace TraitDecl

/-- The declaration with only the members and the interfaces that are kept. -/
def keeping (d : TraitDecl) (members interfaces : Nat → Bool) : TraitDecl :=
  { d with members := keepPlaces members d.members
           interfaces := keepPlaces interfaces d.interfaces }

/-- All that is not kept is out of order anyway. -/
structure KeepsOrdered (d : TraitDecl) (members interfaces : Nat → Bool) : Prop where
  members : ∀ i member, d.members[i]? = some member → members i = false →
    member.isSkipped = true
  interfaces : ∀ i interface, d.interfaces[i]? = some interface → interfaces i = false →
    interface.resolvable = false

section

variable {d : TraitDecl} {members interfaces : Nat → Bool} (c : TraitContext)
  (h : d.KeepsOrdered members interfaces)

include h

/-- The members come to the same, except for what is reported about them. -/
theorem KeepsOrdered.members_keeping :
    (d.keeping members interfaces).memberTurns c = keepPlaces members (d.memberTurns c)
      ∧ ∃ ds, (d.keeping members interfaces).members.foldl c.addMember .empty =
        { d.members.foldl c.addMember .empty with diagnostics := ds } :=
  c.onlyAdds_addMember.turns_keepPlaces .empty [] fun i member hi hdropped =>
    c.exists_report_of_isSkipped (h.members i member hi hdropped)

/-- So the interfaces start from the same, and come to the same. -/
theorem KeepsOrdered.interfaces_keeping :
    (d.keeping members interfaces).interfaceTurns c =
        keepPlaces interfaces (d.interfaceTurns c)
      ∧ ∃ ds, (d.keeping members interfaces).parts c = { d.parts c with diagnostics := ds } := by
  obtain ⟨-, ds, hstart⟩ := h.members_keeping c
  unfold interfaceTurns parts
  rw [hstart]
  exact c.onlyAdds_addInterface.turns_keepPlaces _ ds fun i interface hi hdropped =>
    c.exists_report_of_not_resolvable (h.interfaces i interface hi hdropped)

theorem KeepsOrdered.parts_keeping :
    (d.keeping members interfaces).parts c =
      { d.parts c with
        diagnostics := reportsOf (keepPlaces members (d.memberTurns c)) ++
          reportsOf (keepPlaces interfaces (d.interfaceTurns c)) } := by
  obtain ⟨hmembers, -⟩ := h.members_keeping c
  obtain ⟨hinterfaces, ds, hparts⟩ := h.interfaces_keeping c
  have hds : ds = reportsOf (keepPlaces members (d.memberTurns c)) ++
      reportsOf (keepPlaces interfaces (d.interfaceTurns c)) := by
    have heq := congrArg TraitParts.diagnostics hparts
    rw [parts_eq_append, hmembers, hinterfaces] at heq
    exact heq.symm
  rw [hparts, hds]

end

/-- **Bad members are isolated** in a declaration that resolves to this trait, with these reports,
when its members are checked in this context. -/
structure Isolates (d : TraitDecl) (config : Config) (c : TraitContext) (t : Trait)
    (ds : List Diagnostic) : Prop where
  /-- What is reported is reported in the turn of one member or interface. -/
  reports : ds = reportsOf (d.memberTurns c) ++ reportsOf (d.interfaceTurns c)
  /-- The members that are out of order are those of which nothing is made but one report. -/
  members : ∀ (i : Nat) (member : MemberDecl), d.members[i]? = some member →
    (member.isSkipped = true ↔ ∃ x, (d.memberTurns c)[i]? = some (ofReport x)
      ∧ x.location = some (c.placeOf member) ∧ x.isError = !member.isOwn)
  interfaces : ∀ (i : Nat) (interface : InterfaceDecl), d.interfaces[i]? = some interface →
    (interface.resolvable = false ↔ ∃ x, (d.interfaceTurns c)[i]? = some (ofReport x)
      ∧ x.location = some c.name ∧ x.isError = true)
  /-- Without any of them, there is the same trait, and what is reported about the others. -/
  without : ∀ members interfaces, d.KeepsOrdered members interfaces →
    (d.keeping members interfaces).resolve config =
      .ok (t, reportsOf (keepPlaces members (d.memberTurns c)) ++
        reportsOf (keepPlaces interfaces (d.interfaceTurns c)))

theorem isolates_of_resolve {d : TraitDecl} {config : Config} {t : Trait} {ds : List Diagnostic}
    (h : d.resolve config = .ok (t, ds)) : d.Isolates config (d.context config t.name) t ds := by
  obtain ⟨name, typeParams, hname, hsuperclass, htypeParams, rfl, rfl⟩ := resolve_eq_ok_iff.mp h
  show d.Isolates config (d.context config name) _ _
  refine ⟨?_, ?_, ?_, ?_⟩
  · rw [parts_eq_append]
    rfl
  · intro i member hi
    obtain ⟨gain, hturn, hgains⟩ := d.exists_gains_of_members (d.context config name) hi
    rw [hturn]
    simpa only [Option.some.injEq] using hgains.isSkipped_iff
  · intro i interface hi
    obtain ⟨present, gain, hturn, hgains⟩ :=
      d.exists_gains_of_interfaces (d.context config name) hi
    rw [hturn]
    simpa only [Option.some.injEq] using hgains.resolvable_iff
  · intro members interfaces hkeeps
    have hparts : (d.keeping members interfaces).parts
        ((d.keeping members interfaces).context config name) = _ :=
      hkeeps.parts_keeping (d.context config name)
    refine resolve_eq_ok_iff.mpr ⟨name, typeParams, hname, hsuperclass, htypeParams, ?_, ?_⟩
    · rw [hparts]
    · rw [hparts]

/-! ## A shed -/

instance (d : TraitDecl) (members interfaces : Nat → Bool) :
    Decidable (d.KeepsOrdered members interfaces) :=
  decidable_of_iff
    ((∀ e ∈ d.members.zipIdx, members e.2 = false → e.1.isSkipped = true)
      ∧ ∀ e ∈ d.interfaces.zipIdx, interfaces e.2 = false → e.1.resolvable = false) (by
    simp only [Prod.forall, List.mk_mem_zipIdx_iff_getElem?]
    exact ⟨fun h => ⟨fun i m => h.1 m i, fun i m => h.2 m i⟩,
      fun h => ⟨fun m i => h.members i m, fun m i => h.interfaces i m⟩⟩)

/-- A trait in which every other member and all interfaces but the first are out of order. Its host
method stays in, but it is no self accessor, because it is not abstract. -/
def shed : TraitDecl :=
  let money : SourceType := .primitive "money"
  let constant : List Modifier := [.public, .static, .final]
  { name := "lib.Shed"
    typeParams := [⟨"T", []⟩]
    superclass := none
    interfaces :=
      [⟨"lib.Named", ["N"], [.typeVariable "T" none none],
          [.plain "name" [.public, .abstract] (.typeVariable "N" none none)]⟩,
        ⟨"lib.Locked", ["K"], [.void, .void], []⟩, ⟨"", [], [], []⟩,
        ⟨"lib.Sold", [], [], [.plain "price" [.public, .abstract] money]⟩]
    members :=
      [.method (.plain "fill" [.public] .void), .method (.plain "build" [.public, .static] .void),
        .method (.plain "width" [.public, .abstract] (.typeVariable "T" none none)),
        .method (.plain "price" [.public] money),
        .constructor [], .constructor [⟨"size", .primitive "int"⟩],
        .field ⟨"SIZE", .primitive "int", constant⟩, .field ⟨"stock", .primitive "int", [.private]⟩,
        .method { MethodDecl.plain "host" [.public] (.declared "lib.ShedTrait" []) with
          selfAccessor := true },
        .field ⟨"PRICE", money, constant⟩,
        .method (.plain "name" [.public] .void), .other "Lid" "a nested class"] }

/-- Of ten reports, the one about the host method is left. -/
theorem isolates_shed :
    ∃ t ds, shed.resolve .bare = .ok (t, ds)
      ∧ shed.Isolates .bare (shed.context .bare t.name) t ds ∧ ds.length = 10
      ∧ ∃ x, x.location = some "lib.Shed.host"
        ∧ (shed.keeping (fun i => i % 2 = 0) (fun i => i = 0)).resolve .bare = .ok (t, [x]) := by
  have hresolve : (shed.resolve .bare).toOption.map (fun r => (r.1.name, r.2.length)) =
      some (⟨"lib", "Shed"⟩, 10) := by
    decide +kernel
  obtain ⟨⟨t, ds⟩, hr, he⟩ := Option.map_eq_some_iff.mp hresolve
  obtain ⟨hname, hlength⟩ := Prod.mk.inj he
  have hr := toOption_eq_some_iff.mp hr
  have hisolates := isolates_of_resolve hr
  have hwithout := hisolates.without (fun i => i % 2 = 0) (fun i => i = 0) (by decide +kernel)
  -- what is left to report
  have hleft : (reportsOf (keepPlaces (fun i => i % 2 = 0)
        (shed.memberTurns (shed.context .bare ⟨"lib", "Shed"⟩))) ++
      reportsOf (keepPlaces (fun i => i = 0)
        (shed.interfaceTurns (shed.context .bare ⟨"lib", "Shed"⟩)))).map (·.location) =
        [some "lib.Shed.host"] := by
    decide +kernel
  obtain ⟨x, hx, hplace⟩ := List.map_eq_singleton_iff.mp hleft
  refine ⟨t, ds, hr, hisolates, hlength, x, hplace, ?_⟩
  rw [hwithout, ← hx, show t.name = _ from hname]

end TraitDecl

end TraitWeaver
