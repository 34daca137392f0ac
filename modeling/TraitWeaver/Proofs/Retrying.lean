import TraitWeaver.Proofs.Legality
import TraitWeaver.Proofs.Requests

/-!
# Trying again

A generator hands a filer two files for a trait, first the interface and then the
delegate, and nobody takes a file back: a filer has no way to. So whether a call
that failed can be made again depends on where it failed.

* If the interface was not created, nothing was, and the call can be repeated
  until the filer gives way (`Traceless`).
* If the interface was created, it stays. From then on it stands in the way of
  the call that it came from, which can never succeed again (`Halfway`).

That a plan cannot be written is no third case (`exists_run_generateTrait`).
-/

namespace TraitWeaver

namespace Memory

variable {refused : String → Option FileFault} {files : Memory} {name : String}

/-- Why no file of a name can be put into memory. -/
def fault? (refused : String → Option FileFault) (files : Memory) (name : String) :
    Option FileFault :=
  (refused name).or (if (files.get? name).isSome then some (alreadyCreated name) else none)

theorem fault?_eq_none_iff :
    fault? refused files name = none ↔ refused name = none ∧ files.get? name = none := by
  unfold fault?
  rw [Option.or_eq_none_iff]
  cases files.get? name <;> simp

/-- A name that is taken is refused, at any time. -/
theorem exists_fault?_of_isSome (refused : String → Option FileFault)
    (h : (files.get? name).isSome) :
    ∃ fault, fault? refused files name = some fault := by
  rw [← Option.isSome_iff_exists, Option.isSome_iff_ne_none]
  intro hnone
  rw [(fault?_eq_none_iff.mp hnone).2] at h
  cases h

theorem run_filer_create_eq (file : SourceFile) :
    ((filer refused).create file).run files =
      match fault? refused files file.name with
      | some fault => (.error fault, files)
      | none => (.ok (), files.insert file.name file.text) := by
  rw [run_filer_create]
  unfold fault?
  cases refused file.name with
  | some fault => rfl
  | none => by_cases htaken : (files.get? file.name).isSome <;> simp [htaken]

/-- One file that is put into memory is all that is new. -/
theorem created_insert {file : SourceFile} {before after : Memory} {rest : List SourceFile}
    (hfree : before.get? file.name = none)
    (h : Contents.Created (before.insert file.name file.text).get? after.get? rest) :
    Contents.Created before.get? after.get? (file :: rest) :=
  h.cons hfree fun name => SortedMap.get?_insert before file.name name file.text

end Memory

/-- What follows the simple name follows the whole. -/
theorem DeclaredName.qualified_append (n : DeclaredName) (suffix : String) :
    (⟨n.package, n.simple ++ suffix⟩ : DeclaredName).qualified = n.qualified ++ suffix := by
  unfold qualified
  by_cases hdefault : n.package = ""
  · rw [if_pos hdefault, if_pos hdefault]
  · rw [if_neg hdefault, if_neg hdefault]
    exact (String.append_assoc ..).symm

namespace Trait

/-- The name of the file with the interface. -/
def interfaceFileName (t : Trait) (c : Config) : String := (t.interfaceFile c).name.qualified

/-- The name of the file with the delegate. -/
def delegateFileName (t : Trait) (c : Config) : String := (t.delegateFile c).name.qualified

theorem interfaceFileName_eq (t : Trait) (c : Config) :
    t.interfaceFileName c = t.qualifiedName ++ c.interfaceSuffix :=
  t.name.qualified_append c.interfaceSuffix

theorem delegateFileName_eq (t : Trait) (c : Config) :
    t.delegateFileName c = t.qualifiedName ++ c.delegateSuffix :=
  t.name.qualified_append c.delegateSuffix

end Trait

namespace Generator

open Memory

theorem run_createAll_cons (refused : String → Option FileFault) (file : SourceFile)
    (rest : List SourceFile) (files : Memory) :
    (createAll (filer refused) (file :: rest)).run files =
      match fault? refused files file.name with
      | some fault => (.error (.io file.name fault), files)
      | none => (createAll (filer refused) rest).run (files.insert file.name file.text) := by
  rw [createAll, StateT.run_bind, run_filer_create_eq]
  cases fault? refused files file.name with
  | some fault => rfl
  | none => rfl

/-- **The course of a call for a trait.** -/
theorem exists_run_generateTrait (g : Generator) (t : Trait) :
    ∃ interface delegate : String,
      (t.interfaceFile g.config).render = .ok interface
      ∧ (t.delegateFile g.config).render = .ok delegate
      ∧ ∀ (refused : String → Option FileFault) (files : Memory),
        (g.generateTrait (filer refused) t).run files =
          if t.qualifiedName ∈ g.traitsDone then
            (.error (.alreadyGenerated t.qualifiedName), files)
          else
            match fault? refused files (t.interfaceFileName g.config) with
            | some fault => (.error (.io (t.interfaceFileName g.config) fault), files)
            | none =>
              let halfway := files.insert (t.interfaceFileName g.config) interface
              match fault? refused halfway (t.delegateFileName g.config) with
              | some fault => (.error (.io (t.delegateFileName g.config) fault), halfway)
              | none =>
                (.ok (⟨t.interfaceFileName g.config, t.delegateFileName g.config⟩,
                    { g with traitsDone := t.qualifiedName :: g.traitsDone }),
                  halfway.insert (t.delegateFileName g.config) delegate) := by
  obtain ⟨interface, hinterface⟩ := t.exists_render_interfaceFile g.config
  obtain ⟨delegate, hdelegate⟩ := t.exists_render_delegateFile g.config
  refine ⟨interface, delegate, hinterface, hdelegate, fun refused files => ?_⟩
  unfold generateTrait finish
  rw [hinterface, hdelegate]
  by_cases hdone : t.qualifiedName ∈ g.traitsDone
  · rw [if_pos hdone, if_pos hdone]
    rfl
  · rw [if_neg hdone, if_neg hdone]
    show (createAll (filer refused) [⟨t.interfaceFileName g.config, _, interface⟩,
      ⟨t.delegateFileName g.config, _, delegate⟩] >>= _).run files = _
    rw [StateT.run_bind, run_createAll_cons]
    dsimp only
    cases fault? refused files (t.interfaceFileName g.config) with
    | some fault => rfl
    | none =>
        dsimp only
        rw [run_createAll_cons]
        dsimp only
        cases fault? refused (files.insert (t.interfaceFileName g.config) interface)
            (t.delegateFileName g.config) with
        | some fault => rfl
        | none => rfl

/-! ## Generators at work -/

/-- A generator and the files that are there, after any requests at all. At each of them the filer
may refuse other names. -/
inductive Reached (c : Config) : Generator → Memory → Prop where
  | new (files : Memory) : Reached c (.new c) files
  | answered {g g' : Generator} {files files' : Memory} {refused : String → Option FileFault}
      {r : Request} {answer : Except GenerationError (List String)} : Reached c g files →
      (g.answer (filer refused) r).run files = ((answer, g'), files') → Reached c g' files'

namespace Reached

variable {c : Config} {g : Generator} {files : Memory}

theorem config_eq (h : Reached c g files) : g.config = c := by
  induction h with
  | new => rfl
  | answered _ hrun ih => exact (keeps_filer.answered hrun).config_eq.trans ih

/-- A trait that is done has its interface. -/
theorem isSome_of_done (h : Reached c g files) :
    ∀ name ∈ g.traitsDone, (files.get? (name ++ c.interfaceSuffix)).isSome := by
  induction h with
  | new => exact fun _ hname => absurd hname List.not_mem_nil
  | @answered g g' files files' refused r answer hreached hrun ih =>
      have hanswered := keeps_filer.answered hrun
      -- what was there before is still there
      have hkept : ∀ name ∈ g.traitsDone, (files'.get? (name ++ c.interfaceSuffix)).isSome := by
        intro name hname
        obtain ⟨text, htext⟩ := Option.isSome_iff_exists.mp (ih name hname)
        rw [hanswered.extends _ _ htext]
        rfl
      cases hanswered with
      | repeated => exact hkept
      | unwritable => exact hkept
      | refused => exact hkept
      | generated _ hfinished hcreated =>
          cases r with
          | host h => exact hkept
          | trait t =>
              intro name hname
              rcases List.mem_cons.mp hname with rfl | hname
              · rw [← t.interfaceFileName_eq, ← hreached.config_eq]
                have hmem : t.interfaceFileName g.config ∈ (Request.trait t).fileNames g.config :=
                  List.mem_cons_self
                rw [← hfinished.map_name] at hmem
                obtain ⟨file, hfile, he⟩ := List.mem_map.mp hmem
                rw [← he, hcreated.written file hfile]
                rfl
              · exact hkept name hname

theorem not_done {t : Trait} (h : Reached c g files)
    (hfree : files.get? (t.interfaceFileName g.config) = none) :
    t.qualifiedName ∉ g.traitsDone := by
  intro hdone
  have hthere := h.isSome_of_done _ hdone
  rw [← h.config_eq, ← t.interfaceFileName_eq, hfree] at hthere
  cases hthere

end Reached

/-! ## After a failure -/

/-- A call for a trait has failed, and there is no trace of it. -/
structure Traceless (g : Generator) (t : Trait) (before after : Memory) : Prop where
  unchanged : after = before
  /-- The same call succeeds as soon as neither file is refused, if neither name is taken and they
  are two names. -/
  repeatable : ∀ refused : String → Option FileFault,
    refused (t.interfaceFileName g.config) = none → refused (t.delegateFileName g.config) = none →
    before.get? (t.interfaceFileName g.config) = none →
    before.get? (t.delegateFileName g.config) = none →
    t.interfaceFileName g.config ≠ t.delegateFileName g.config →
    ∃ files new, (g.generateTrait (filer refused) t).run after =
        (.ok (⟨t.interfaceFileName g.config, t.delegateFileName g.config⟩,
          (Request.trait t).noted g), files)
      ∧ (Request.trait t).IsFinished g.config new ∧ Contents.Created after.get? files.get? new

/-- A call for a trait has failed between its two files. -/
structure Halfway (g : Generator) (t : Trait) (refused : String → Option FileFault)
    (before after : Memory) (e : GenerationError) : Prop where
  /-- It is the delegate that could not be created. -/
  blocked : ∃ fault, fault? refused after (t.delegateFileName g.config) = some fault
    ∧ e = .io (t.delegateFileName g.config) fault
  /-- The interface is there, and it is all that is new. -/
  created : ∃ interface delegate, (Request.trait t).IsFinished g.config [interface, delegate]
    ∧ Contents.Created before.get? after.get? [interface]
  /-- Whatever the filer refuses from then on, the same call fails and does nothing. -/
  lost : ∀ refused : String → Option FileFault, ∃ fault,
    (g.generateTrait (filer refused) t).run after =
      (.error (.io (t.interfaceFileName g.config) fault), after)

theorem Traceless.of_reached {c : Config} {g : Generator} {files : Memory} (t : Trait)
    (hreached : Reached c g files) : Traceless g t files files where
  unchanged := rfl
  repeatable := by
    intro refused hi hd hifree hdfree hne
    obtain ⟨interface, delegate, hinterface, hdelegate, hrun⟩ := g.exists_run_generateTrait t
    have hdfree' : (files.insert (t.interfaceFileName g.config) interface).get?
        (t.delegateFileName g.config) = none := by
      rw [SortedMap.get?_insert, if_neg hne.symm, hdfree]
    refine ⟨_, [⟨t.interfaceFileName g.config, t.qualifiedName, interface⟩,
      ⟨t.delegateFileName g.config, t.qualifiedName, delegate⟩], ?_,
      .cons ⟨rfl, hinterface⟩ (.cons ⟨rfl, hdelegate⟩ .nil),
      created_insert hifree (created_insert hdfree' (.nil fun _ => rfl))⟩
    rw [hrun, if_neg (hreached.not_done hifree), fault?_eq_none_iff.mpr ⟨hi, hifree⟩]
    dsimp only
    rw [fault?_eq_none_iff.mpr ⟨hd, hdfree'⟩]
    rfl

/--
**A failed call for a trait leaves nothing, or the interface.**

The generator may be in any state that it can get into. If the interface is
refused, or there is a file of its name, then nothing changes and the call can be
repeated. If the interface is not what fails, it stays where it is, and no
repetition ever succeeds.
-/
theorem traceless_or_halfway {c : Config} {g : Generator} {files after : Memory} {t : Trait}
    {refused : String → Option FileFault} {e : GenerationError} (hreached : Reached c g files)
    (hrun : (g.generateTrait (filer refused) t).run files = (.error e, after)) :
    match fault? refused files (t.interfaceFileName g.config) with
    | some _ => Traceless g t files after
    | none => Halfway g t refused files after e := by
  obtain ⟨interface, delegate, hinterface, hdelegate, hcourse⟩ := g.exists_run_generateTrait t
  rw [hcourse] at hrun
  cases hfault : fault? refused files (t.interfaceFileName g.config) with
  | some fault =>
      rw [hfault] at hrun
      -- what is done already has its interface too, so this is one case
      have : after = files := by
        split at hrun
        · exact (Prod.mk.inj hrun).2.symm
        · exact (Prod.mk.inj hrun).2.symm
      rw [this]
      exact .of_reached t hreached
  | none =>
      have hifree := (fault?_eq_none_iff.mp hfault).2
      have hnew := hreached.not_done hifree
      rw [if_neg hnew, hfault] at hrun
      dsimp only at hrun
      split at hrun
      · rename_i fault hblocked
        obtain ⟨he, rfl⟩ := Prod.mk.inj hrun
        obtain rfl := Except.error.inj he
        refine ⟨⟨fault, hblocked, rfl⟩, ⟨⟨t.interfaceFileName g.config, t.qualifiedName, interface⟩,
          ⟨t.delegateFileName g.config, t.qualifiedName, delegate⟩,
          .cons ⟨rfl, hinterface⟩ (.cons ⟨rfl, hdelegate⟩ .nil),
          created_insert hifree (.nil fun _ => rfl)⟩, fun later => ?_⟩
        have htaken : ((files.insert (t.interfaceFileName g.config) interface).get?
            (t.interfaceFileName g.config)).isSome := by
          rw [SortedMap.get?_insert, if_pos rfl]
          rfl
        obtain ⟨obstacle, hobstacle⟩ := exists_fault?_of_isSome later htaken
        refine ⟨obstacle, ?_⟩
        rw [hcourse, if_neg hnew, hobstacle]
      · cases hrun

/-- A trait without members. -/
def walker : Trait := ⟨⟨⟨"lib", "Walker"⟩, []⟩, "Walker", [], [], [], []⟩

/-- The delegate of the trait is refused. -/
def walkerLock (name : String) : Option FileFault :=
  if name = "lib.WalkerDelegate" then some (.refused "locked") else none

/-- The interface of the trait, and nothing else. -/
def walkerFiles : Memory :=
  ⟨[("lib.WalkerTrait", "// Generated by traitsmith. Do not edit.\n" ++ "package lib;\n\n" ++
    "public interface WalkerTrait \x7b\n\x7d\n")]⟩

theorem run_generateTrait_walker :
    ((new .default).generateTrait (filer walkerLock) walker).run .empty =
      (.error (.io "lib.WalkerDelegate" (.refused "locked")), walkerFiles) := by
  rfl

theorem traceless_or_halfway_walker :
    Reached .default (new .default) .empty
      ∧ ((new .default).generateTrait (filer walkerLock) walker).run .empty =
        (.error (.io "lib.WalkerDelegate" (.refused "locked")), walkerFiles)
      ∧ Halfway (new .default) walker walkerLock .empty walkerFiles
        (.io "lib.WalkerDelegate" (.refused "locked")) := by
  have hfree : fault? walkerLock .empty (walker.interfaceFileName (new .default).config) =
      none := by decide +kernel
  have hfailed := traceless_or_halfway (.new .empty) run_generateTrait_walker
  rw [hfree] at hfailed
  exact ⟨.new _, run_generateTrait_walker, hfailed⟩

/-- Not every failure is without a trace: here the interface is left, so the call cannot be repeated
although neither name was taken at first and nothing is refused any more. -/
theorem not_forall_traceless :
    ¬ ∀ (c : Config) (g : Generator) (files after : Memory) (t : Trait)
      (refused : String → Option FileFault) (e : GenerationError), Reached c g files →
      (g.generateTrait (filer refused) t).run files = (.error e, after) →
      Traceless g t files after := by
  intro h
  have := (h _ _ _ _ _ _ _ (.new .empty) run_generateTrait_walker).unchanged
  cases this

end Generator

end TraitWeaver
