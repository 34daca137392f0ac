import TraitWeaver.Proofs.MemberGains

/-!
# The turns of a run

A trait is the outcome of two loops, and the outcome does not tell which member or which
interface a part of it is from. `turns` keeps the account: for every round of a loop, what
there is afterwards that was not there before.

Nothing is lost in the account, because the steps only add (`OnlyAdds`): what the loops
come to is what they started from, and then the gains of all turns, one behind the other.
And the turn of a member is one of the few things that a member can add (`Gains`).
-/

namespace TraitWeaver

namespace TraitParts

/-- What some parts have beyond those that they grew from. -/
def since (after before : TraitParts) : TraitParts :=
  ⟨after.methods.drop before.methods.length, after.constants.drop before.constants.length,
    after.interfaces.drop before.interfaces.length,
    after.diagnostics.drop before.diagnostics.length⟩

@[simp] theorem since_append (before gain : TraitParts) :
    (before.append gain).since before = gain := by
  simp [since, append]

/-- All methods of some gains, in their order. -/
def methodsOf (gains : List TraitParts) : List TraitMethod := gains.flatMap (·.methods)

/-- All that some gains report, in their order. -/
def reportsOf (gains : List TraitParts) : List Diagnostic := gains.flatMap (·.diagnostics)

/-- All of some gains, one behind the other. -/
def flatten (gains : List TraitParts) : TraitParts :=
  ⟨methodsOf gains, gains.flatMap (·.constants), gains.flatMap (·.interfaces), reportsOf gains⟩

variable {α : Type} {step : TraitParts → α → TraitParts}

/-- What each round of a loop has added. -/
def turns (step : TraitParts → α → TraitParts) : TraitParts → List α → List TraitParts
  | _, [] => []
  | parts, a :: as => (step parts a).since parts :: turns step (step parts a) as

/-- A step adds something behind what is there, and does not ask what has been reported. -/
def OnlyAdds (step : TraitParts → α → TraitParts) : Prop :=
  ∀ (parts : TraitParts) (a : α), ∃ gain : TraitParts, ∀ ds : List Diagnostic,
    step { parts with diagnostics := ds } a = append { parts with diagnostics := ds } gain

theorem getElem?_turns (step : TraitParts → α → TraitParts) (parts : TraitParts) (as : List α)
    (i : Nat) : (turns step parts as)[i]? = as[i]?.map fun a =>
      (step ((as.take i).foldl step parts) a).since ((as.take i).foldl step parts) := by
  induction as generalizing parts i with
  | nil => rfl
  | cons a as ih =>
      cases i with
      | zero => rfl
      | succ i => exact ih (step parts a) i

/-- **What a loop comes to is what it started from and the gains of its turns.** -/
theorem OnlyAdds.foldl_eq (h : OnlyAdds step) (as : List α) (parts : TraitParts) :
    as.foldl step parts = parts.append (flatten (turns step parts as)) := by
  induction as generalizing parts with
  | nil => exact (append_empty parts).symm
  | cons a as ih =>
      obtain ⟨gain, hgain⟩ := h parts a
      have hstep : step parts a = parts.append gain := hgain parts.diagnostics
      rw [List.foldl_cons, ih, turns, hstep, since_append]
      simp [append, flatten, methodsOf, reportsOf]

end TraitParts

open TraitParts

theorem TraitContext.onlyAdds_addMember (c : TraitContext) : OnlyAdds c.addMember := by
  intro parts member
  obtain ⟨gain, -, hgain⟩ := c.exists_gains_addMember parts member
  exact ⟨gain, hgain⟩

theorem TraitContext.onlyAdds_addInterface (c : TraitContext) : OnlyAdds c.addInterface := by
  intro parts i
  obtain ⟨gain, -, hgain⟩ := c.exists_gains_addInterface parts i
  exact ⟨gain, hgain⟩

namespace TraitDecl

/-- What each member has added to the trait. -/
def memberTurns (d : TraitDecl) (c : TraitContext) : List TraitParts :=
  turns c.addMember .empty d.members

/-- What each interface has added, behind all that is from the members. -/
def interfaceTurns (d : TraitDecl) (c : TraitContext) : List TraitParts :=
  turns c.addInterface (d.members.foldl c.addMember .empty) d.interfaces

/-- **A trait has what its members add, and then what its interfaces add.** -/
theorem parts_eq_append (d : TraitDecl) (c : TraitContext) :
    d.parts c = (flatten (d.memberTurns c)).append (flatten (d.interfaceTurns c)) := by
  have hmembers : d.members.foldl c.addMember .empty = flatten (d.memberTurns c) := by
    rw [c.onlyAdds_addMember.foldl_eq]
    simp [append, empty, memberTurns]
  unfold parts interfaceTurns
  rw [c.onlyAdds_addInterface.foldl_eq, hmembers]

/-- **The turn of a member**, after the members before it. -/
theorem exists_gains_of_members {d : TraitDecl} (c : TraitContext) {i : Nat} {member : MemberDecl}
    (h : d.members[i]? = some member) : ∃ gain, (d.memberTurns c)[i]? = some gain
      ∧ c.Gains ((d.members.take i).foldl c.addMember .empty).hasAccessor member gain := by
  obtain ⟨gain, hgains, hadd⟩ :=
    c.exists_addMember_eq ((d.members.take i).foldl c.addMember .empty) member
  refine ⟨gain, ?_, hgains⟩
  rw [memberTurns, getElem?_turns, h, Option.map_some, hadd, since_append]

/-- **The turn of an interface**, after all members and the interfaces before it. -/
theorem exists_gains_of_interfaces {d : TraitDecl} (c : TraitContext) {i : Nat}
    {interface : InterfaceDecl} (h : d.interfaces[i]? = some interface) :
    ∃ present gain, (d.interfaceTurns c)[i]? = some gain
      ∧ c.InterfaceGains present interface gain := by
  obtain ⟨gain, hgains, hadd⟩ := c.exists_addInterface_eq
    ((d.interfaces.take i).foldl c.addInterface (d.members.foldl c.addMember .empty)) interface
  refine ⟨_, gain, ?_, hgains⟩
  rw [interfaceTurns, getElem?_turns, h, Option.map_some, hadd, since_append]

/-- There is no turn but those of the interfaces. -/
theorem exists_gains_of_interfaceTurns {d : TraitDecl} {c : TraitContext} {gain : TraitParts}
    (h : gain ∈ d.interfaceTurns c) :
    ∃ interface ∈ d.interfaces, ∃ present, c.InterfaceGains present interface gain := by
  obtain ⟨i, hturn⟩ := List.mem_iff_getElem?.mp h
  have hsome : ∃ interface, d.interfaces[i]? = some interface := by
    rw [interfaceTurns, getElem?_turns] at hturn
    obtain ⟨interface, hi, -⟩ := Option.map_eq_some_iff.mp hturn
    exact ⟨interface, hi⟩
  obtain ⟨interface, hi⟩ := hsome
  obtain ⟨present, gain', hturn', hgains⟩ := d.exists_gains_of_interfaces c hi
  rw [hturn] at hturn'
  cases hturn'
  exact ⟨interface, List.mem_of_getElem? hi, present, hgains⟩

end TraitDecl

end TraitWeaver
