import Mathlib.Data.String.Basic
import TraitWeaver.Proofs.DryRun
import TraitWeaver.Proofs.Retrying
import TraitWeaver.Proofs.RoundOrder
import TraitWeaver.Proofs.ValidOptions

/-!
# How many files there are

A check says how many files a generation would write, and takes the number from
what the round lists as generated. A trait is listed when both its files are there.
But the interface is created first, and it stays if the delegate is refused
(`Generator.Halfway`); then there is a file in no list.

If the file system refuses nothing, a file is refused only because of its name, and
the traits come in increasing order of their names. So a delegate is refused exactly
if an earlier trait has an interface of its name (`Trait.Blocks`). A delegate of an
earlier trait does no such harm: it can only be in the way of an interface, and then
nothing of the trait is written.
-/

namespace TraitWeaver

/-! ## Names that collide -/

theorem le_of_toList_eq_append {a b : String} {l : List Char} (h : b.toList = a.toList ++ l) :
    a ≤ b := by
  rw [← not_lt, String.lt_iff_toList_lt, h]
  exact List.le_append_left

/-- Of two texts that can be completed to the same, the greater one is completed by less. -/
theorem length_le_of_append_eq {a b x y : String} (h : a ++ x = b ++ y) (hle : a ≤ b) :
    y.length ≤ x.length := by
  have hlists : a.toList ++ x.toList = b.toList ++ y.toList := by
    rw [← String.toList_append, h, String.toList_append]
  rw [← String.length_toList, ← String.length_toList]
  rcases List.append_eq_append_iff.mp hlists with ⟨l, -, hx⟩ | ⟨l, ha, hy⟩
  · rw [hx, List.length_append]
    exact Nat.le_add_left _ _
  · -- `b` begins `a`, so it is no less than `a` only if it is all of it
    rw [le_antisymm hle (le_of_toList_eq_append ha), List.self_eq_append_right] at ha
    rw [hy, ha, List.nil_append]

theorem eq_of_append_eq {a b x y : String} (h : a ++ x = b ++ y) (hlength : x.length = y.length) :
    a = b ∧ x = y := by
  have hlists : a.toList ++ x.toList = b.toList ++ y.toList := by
    rw [← String.toList_append, h, String.toList_append]
  have hlength' : x.toList.length = y.toList.length := by
    rw [String.length_toList, String.length_toList, hlength]
  obtain ⟨ha, hx⟩ := List.append_inj' hlists hlength'
  exact ⟨String.toList_injective ha, String.toList_injective hx⟩

namespace SortedMap

variable {α : Type} {m : SortedMap α} {key key' : String} {value : α}

theorem isSome_get?_insert (h : (m.get? key').isSome) :
    ((m.insert key value).get? key').isSome := by
  rw [get?_insert]
  split
  · rfl
  · exact h

theorem isSome_get?_insert_self : ((m.insert key value).get? key).isSome := by
  rw [get?_insert, if_pos rfl]
  rfl

end SortedMap

namespace Trait

variable {config : Config} {t u v : Trait}

theorem qualifiedName_eq_of_interface
    (h : t.interfaceFileName config = u.interfaceFileName config) :
    t.qualifiedName = u.qualifiedName := by
  rw [interfaceFileName_eq, interfaceFileName_eq] at h
  exact (eq_of_append_eq h rfl).1

theorem qualifiedName_eq_of_delegate
    (h : t.delegateFileName config = u.delegateFileName config) :
    t.qualifiedName = u.qualifiedName := by
  rw [delegateFileName_eq, delegateFileName_eq] at h
  exact (eq_of_append_eq h rfl).1

/-- The interface of a trait, which is created no later, has the name of the delegate of another. -/
def Blocks (config : Config) (u t : Trait) : Prop :=
  u.interfaceFileName config = t.delegateFileName config ∧ u.qualifiedName ≤ t.qualifiedName

instance (config : Config) (u t : Trait) : Decidable (u.Blocks config t) :=
  inferInstanceAs (Decidable (_ ∧ _))

/-- A name that ends in a long suffix comes later under a short one. -/
theorem Blocks.length_le (h : u.Blocks config t) :
    config.delegateSuffix.length ≤ config.interfaceSuffix.length := by
  obtain ⟨hname, hle⟩ := h
  rw [interfaceFileName_eq, delegateFileName_eq] at hname
  exact length_le_of_append_eq hname hle

/-- Interfaces and delegates are never in each other's way at once. -/
theorem not_blocks_of_interface (hlt : u.qualifiedName < t.qualifiedName)
    (h : t.interfaceFileName config = u.delegateFileName config) : ¬ v.Blocks config t := by
  intro hblocks
  rw [interfaceFileName_eq, delegateFileName_eq] at h
  have hle := length_le_of_append_eq h.symm (le_of_lt hlt)
  have heq := eq_of_append_eq h (Nat.le_antisymm hle hblocks.length_le)
  exact ne_of_lt hlt heq.1.symm

/-- The names increase from trait to trait. -/
def Ordered (ts : List Trait) : Prop := ts.Pairwise fun t u => t.qualifiedName < u.qualifiedName

theorem Ordered.lt_of_prefix {known before : List Trait} (h : Ordered known)
    (hbegins : before ++ [t] <+: known) : ∀ u ∈ before, u.qualifiedName < t.qualifiedName := by
  obtain ⟨after, rfl⟩ := hbegins
  have hbefore := (List.pairwise_append.mp (List.pairwise_append.mp h).1).2.2
  exact fun u hu => hbefore u hu t List.mem_cons_self

theorem Ordered.mem_of_le {known before : List Trait} (h : Ordered known)
    (hbegins : before ++ [t] <+: known) (hu : u ∈ known)
    (hle : u.qualifiedName ≤ t.qualifiedName) : u ∈ before ++ [t] := by
  obtain ⟨after, rfl⟩ := hbegins
  refine (List.mem_append.mp hu).resolve_right fun hafter => ?_
  have hlt := (List.pairwise_append.mp h).2.2 t (List.mem_append_right _ List.mem_cons_self) u hafter
  exact not_le_of_gt hlt hle

/-- The traits of which only the interface is generated, among others that are generated too. -/
def strandedAmong (config : Config) (known ts : List Trait) : List Trait :=
  ts.filter fun t => ∃ u ∈ known, u.Blocks config t

theorem strandedAmong_concat (config : Config) (known ts : List Trait) (t : Trait) :
    strandedAmong config known (ts ++ [t]) =
      strandedAmong config known ts ++ if ∃ u ∈ known, u.Blocks config t then [t] else [] := by
  unfold strandedAmong
  rw [List.filter_append, List.filter_singleton]
  by_cases hblocked : ∃ u ∈ known, u.Blocks config t
  · rw [if_pos hblocked, decide_eq_true hblocked]
    rfl
  · rw [if_neg hblocked, decide_eq_false hblocked]
    rfl

end Trait

/-! ## The traits -/

namespace Generator

open Memory

/-- What a call for a trait comes to if no name is refused that is free. -/
inductive TraitOutcome (g : Generator) (t : Trait) (files : Memory) :
    Except GenerationError (List String) × Generator → Memory → Prop where
  | nothing {e : GenerationError} : (files.get? (t.interfaceFileName g.config)).isSome →
      TraitOutcome g t files (.error e, g) files
  | interface {e : GenerationError} {text : String} :
      files.get? (t.interfaceFileName g.config) = none →
      ((files.insert (t.interfaceFileName g.config) text).get?
        (t.delegateFileName g.config)).isSome →
      TraitOutcome g t files (.error e, g) (files.insert (t.interfaceFileName g.config) text)
  | both {g' : Generator} {interface delegate : String} :
      files.get? (t.interfaceFileName g.config) = none →
      (files.insert (t.interfaceFileName g.config) interface).get?
        (t.delegateFileName g.config) = none →
      TraitOutcome g t files
        (.ok [t.interfaceFileName g.config, t.delegateFileName g.config], g')
        ((files.insert (t.interfaceFileName g.config) interface).insert
          (t.delegateFileName g.config) delegate)

theorem Reached.traitOutcome {c : Config} {g : Generator} {files files' : Memory} {t : Trait}
    {outcome : Except GenerationError (List String) × Generator} (h : Reached c g files)
    (hrun : (g.answer (filer fun _ => none) (.trait t)).run files = (outcome, files')) :
    TraitOutcome g t files outcome files' := by
  obtain ⟨interface, delegate, -, -, hcourse⟩ := g.exists_run_generateTrait t
  unfold answer at hrun
  rw [StateT.run_bind, hcourse] at hrun
  cases hi : files.get? (t.interfaceFileName g.config) with
  | some text =>
      have htaken : (files.get? (t.interfaceFileName g.config)).isSome := by
        rw [hi]
        rfl
      obtain ⟨fault, hfault⟩ := exists_fault?_of_isSome (fun _ => none) htaken
      rw [hfault] at hrun
      split at hrun
      · cases hrun
        exact .nothing htaken
      · cases hrun
        exact .nothing htaken
  | none =>
      rw [if_neg (h.not_done hi), fault?_eq_none_iff.mpr ⟨rfl, hi⟩] at hrun
      dsimp only at hrun
      cases hd : (files.insert (t.interfaceFileName g.config) interface).get?
          (t.delegateFileName g.config) with
      | some text =>
          have htaken : ((files.insert (t.interfaceFileName g.config) interface).get?
              (t.delegateFileName g.config)).isSome := by
            rw [hd]
            rfl
          obtain ⟨fault, hfault⟩ := exists_fault?_of_isSome (fun _ => none) htaken
          rw [hfault] at hrun
          cases hrun
          exact .interface hi htaken
      | none =>
          rw [fault?_eq_none_iff.mpr ⟨rfl, hd⟩] at hrun
          cases hrun
          exact .both hi hd

end Generator

namespace Declarations

open Trait

variable {config : Config} {known done : List Trait} {t : Trait} {p p' : Progress}
  {files files' : Memory}

/-- The files of the traits that were asked for so far, which are some of those that are known. -/
structure Tally (config : Config) (known done : List Trait) (p : Progress) (files : Memory) :
    Prop where
  reached : Generator.Reached config p.generator files
  /-- Every trait has found or created its interface. -/
  interfaces : ∀ u ∈ done, (files.get? (u.interfaceFileName config)).isSome
  generated : ∀ name ∈ p.result.generated, ∃ u ∈ done, name ∈ u.fileNames config
  lists : files.Lists
    (p.result.generated ++ (strandedAmong config known done).map (·.interfaceFileName config))

theorem Tally.exists_of_isSome (h : Tally config known done p files) {name : String}
    (hname : (files.get? name).isSome) :
    ∃ u ∈ done, name = u.interfaceFileName config ∨ name = u.delegateFileName config := by
  rcases List.mem_append.mp ((h.lists.mem_iff name).mpr hname) with hname | hname
  · obtain ⟨u, hu, hname⟩ := h.generated name hname
    refine ⟨u, hu, ?_⟩
    rcases List.mem_cons.mp hname with hname | hname
    · exact Or.inl hname
    · exact Or.inr (List.mem_singleton.mp hname)
  · obtain ⟨u, hu, rfl⟩ := List.mem_map.mp hname
    exact ⟨u, (List.mem_filter.mp hu).1, Or.inl rfl⟩

/-- **A trait is generated, or it is stranded, or it leaves nothing.** -/
theorem Tally.step (h : Tally config known done p files) (hordered : Ordered known)
    (hbegins : done ++ [t] <+: known)
    (hrun : (generateTrait (Memory.filer fun _ => none) p t).run files = (p', files')) :
    Tally config known (done ++ [t]) p' files' := by
  have hlt := hordered.lt_of_prefix hbegins
  have hknown (u) (hu : u ∈ done ++ [t]) : u ∈ known := hbegins.subset hu
  obtain rfl := h.reached.config_eq
  rw [generateTrait_eq, StateT.run_map] at hrun
  cases hanswer : (p.generator.answer (Memory.filer fun _ => none) (.trait t)).run files with
  | mk outcome after =>
      obtain ⟨answer, g⟩ := outcome
      rw [hanswer] at hrun
      cases hrun
      have hreached := h.reached.answered hanswer
      have hgenerated : ∀ name ∈ p.result.generated,
          ∃ u ∈ done ++ [t], name ∈ u.fileNames p.generator.config := by
        intro name hname
        obtain ⟨u, hu, hname⟩ := h.generated name hname
        exact ⟨u, List.mem_append_left _ hu, hname⟩
      cases h.reached.traitOutcome hanswer with
      | nothing htaken =>
          -- it can only be a delegate that is in the way
          have hfree : ¬ ∃ u ∈ known, u.Blocks p.generator.config t := by
            obtain ⟨u, hu, hname | hname⟩ := h.exists_of_isSome htaken
            · exact absurd (qualifiedName_eq_of_interface hname).symm (ne_of_lt (hlt u hu))
            · rintro ⟨v, -, hv⟩
              exact not_blocks_of_interface (hlt u hu) hname hv
          refine ⟨hreached, ?_, hgenerated, ?_⟩
          · exact List.forall_mem_append.mpr
              ⟨h.interfaces, List.forall_mem_singleton.mpr htaken⟩
          · rw [strandedAmong_concat, if_neg hfree, List.append_nil]
            exact h.lists
      | @interface e text hi hd =>
          have hblocked : ∃ u ∈ known, u.Blocks p.generator.config t := by
            rw [SortedMap.get?_insert] at hd
            split at hd
            · rename_i hname
              exact ⟨t, hknown t List.mem_concat_self, hname.symm, le_refl _⟩
            · obtain ⟨u, hu, hname | hname⟩ := h.exists_of_isSome hd
              · exact ⟨u, hknown u (List.mem_append_left _ hu), hname.symm, le_of_lt (hlt u hu)⟩
              · exact absurd (qualifiedName_eq_of_delegate hname).symm (ne_of_lt (hlt u hu))
          refine ⟨hreached, ?_, hgenerated, ?_⟩
          · refine List.forall_mem_append.mpr ⟨fun u hu => ?_, List.forall_mem_singleton.mpr ?_⟩
            · exact SortedMap.isSome_get?_insert (h.interfaces u hu)
            · exact SortedMap.isSome_get?_insert_self
          · rw [strandedAmong_concat, if_pos hblocked, List.map_append, ← List.append_assoc]
            exact (h.lists.insert (h.lists.not_mem hi) text).perm (List.perm_append_singleton _ _)
      | @both g' interface delegate hi hd =>
          have hinterfaces : ∀ u ∈ done ++ [t],
              ((files.insert (t.interfaceFileName p.generator.config) interface).get?
                (u.interfaceFileName p.generator.config)).isSome := by
            refine List.forall_mem_append.mpr ⟨fun u hu => ?_, List.forall_mem_singleton.mpr ?_⟩
            · exact SortedMap.isSome_get?_insert (h.interfaces u hu)
            · exact SortedMap.isSome_get?_insert_self
          have hfree : ¬ ∃ u ∈ known, u.Blocks p.generator.config t := by
            rintro ⟨u, hu, hname, hle⟩
            have htaken := hinterfaces u (hordered.mem_of_le hbegins hu hle)
            rw [hname, hd] at htaken
            cases htaken
          refine ⟨hreached, ?_, ?_, ?_⟩
          · exact fun u hu => SortedMap.isSome_get?_insert (hinterfaces u hu)
          · intro name hname
            rcases List.mem_append.mp hname with hname | hname
            · exact hgenerated name hname
            · exact ⟨t, List.mem_concat_self, hname⟩
          · have hhalf := h.lists.insert (h.lists.not_mem hi) interface
            refine (hhalf.insert (hhalf.not_mem hd) delegate).perm ?_
            rw [strandedAmong_concat, if_neg hfree, List.append_nil]
            show ((p.result.generated ++ [_, _]) ++ _).Perm _
            rw [List.append_assoc]
            exact (List.perm_middle.trans (List.perm_middle.cons _)).trans (.swap _ _ _)

theorem tally_run (config : Config) (hordered : Ordered known)
    (hrun : (known.foldlM (generateTrait (Memory.filer fun _ => none))
      ⟨.new config, [], .empty⟩).run .empty = (p', files')) :
    Tally config known known p' files' := by
  refine foldlM_induction (Tally config known) ?_ hrun ?_
  · rintro done t p files p' files' hbegins h hstep
    exact h.step hordered hbegins hstep
  · exact ⟨.new _, fun _ hu => absurd hu List.not_mem_nil, fun _ hname => absurd hname
      List.not_mem_nil, Memory.lists_empty⟩

/-! ## The hosts -/

/-- **A host is generated, or it leaves nothing.** -/
theorem lists_generateHost {index : TraitIndex} {d : HostDecl} {names : List String}
    (h : files.Lists (p.result.generated ++ names))
    (hrun : (generateHost (Memory.filer fun _ => none) index p d).run files = (p', files')) :
    files'.Lists (p'.result.generated ++ names) := by
  rw [generateHost_eq] at hrun
  cases haccept : accept index p.failed d with
  | error fault =>
      rw [haccept] at hrun
      cases hrun
      exact h
  | ok host =>
      rw [haccept] at hrun
      dsimp only at hrun
      rw [StateT.run_map, Generator.run_answer_host] at hrun
      cases hfile : host.fileIn (fun _ => none) p.generator.config
          (p.generator.hostsDone.toFinset, files) with
      | error e =>
          rw [hfile] at hrun
          cases hrun
          exact h
      | ok file =>
          rw [hfile] at hrun
          cases hrun
          have hnew := h.not_mem (Host.free_of_fileIn hfile)
          refine (h.insert hnew file.text).perm ?_
          show ((p.result.generated ++ [_]) ++ names).Perm _
          rw [List.append_assoc]
          exact List.perm_middle

theorem lists_run_hosts {index : TraitIndex} {hosts : List HostDecl} {names : List String}
    (h : files.Lists (p.result.generated ++ names))
    (hrun : (hosts.foldlM (generateHost (Memory.filer fun _ => none) index) p).run files =
      (p', files')) : files'.Lists (p'.result.generated ++ names) := by
  refine foldlM_induction
    (fun _ (q : Progress) (m : Memory) => m.Lists (q.result.generated ++ names)) ?_ hrun h
  rintro done d q m q' m' - h hstep
  exact lists_generateHost h hstep

/-! ## The whole round -/

/-- The traits of which only the interface is generated. -/
def stranded (d : Declarations) (config : Config) : List Trait :=
  strandedAmong config (d.checkTraits config).1.traits (d.checkTraits config).1.traits

theorem wellKeyed_addTrait {state : TraitIndex × RoundResult} (h : state.1.WellKeyed)
    (config : Config) (d : TraitDecl) : (addTrait config state d).1.WellKeyed := by
  unfold addTrait
  dsimp only
  split
  · exact h
  · split
    · exact h
    · exact h.insert _

theorem wellKeyed_checkTraits (d : Declarations) (config : Config) :
    (d.checkTraits config).1.WellKeyed :=
  List.foldlRecOn (motive := fun state => state.1.WellKeyed) d.traits (addTrait config)
    TraitIndex.wellKeyed_empty fun _ h decl _ => wellKeyed_addTrait h config decl

/-- The traits of a round come in increasing order of their names. -/
theorem ordered_checkTraits (d : Declarations) (config : Config) :
    Ordered (d.checkTraits config).1.traits := by
  have hkeyed := d.wellKeyed_checkTraits config
  refine List.pairwise_map.mpr (hkeyed.increasing.imp_of_mem ?_)
  intro a b ha hb hlt
  rw [hkeyed.keyed a ha, hkeyed.keyed b hb] at hlt
  exact compare_lt_iff_lt.mp hlt

/-- **What a check has in memory are the files that it lists, and the interfaces that are left of
stranded traits.** -/
theorem lists_check (d : Declarations) (config : Config) :
    (d.check config).2.Lists ((d.check config).1.generated ++
      (d.stranded config).map (·.interfaceFileName config)) := by
  unfold check
  rw [run_process]
  dsimp only
  have htraits := (tally_run config (d.ordered_checkTraits config) rfl).lists
  show Memory.Lists _ (((d.checkTraits config).2.generated ++ _) ++ _)
  rw [(d.checked_checkTraits config).generated, List.nil_append]
  exact lists_run_hosts htraits rfl

/-- Only an interface suffix that is longer than the delegate suffix leaves traits stranded. -/
theorem stranded_eq_nil (d : Declarations) {config : Config} (h : config.validate = .ok ())
    (hle : config.interfaceSuffix.length ≤ config.delegateSuffix.length) :
    d.stranded config = [] := by
  refine List.filter_eq_nil_iff.mpr fun t _ hblocked => ?_
  obtain ⟨u, -, hname, horder⟩ := of_decide_eq_true hblocked
  have hlength := Blocks.length_le ⟨hname, horder⟩
  rw [interfaceFileName_eq, delegateFileName_eq] at hname
  exact (Config.validate_eq_ok_iff.mp h).suffixes_ne
    (eq_of_append_eq hname (Nat.le_antisymm hle hlength)).2

end Declarations

/--
**Generation writes what the check announces, and the interfaces of stranded traits.**

If every file that is asked for can be written, then the files are those that the
check lists and the interfaces of the traits whose delegates are blocked, and there
are as many of them as that. So the two numbers are the same exactly if there are no
such traits, and there are none if the options are valid and the interface suffix is
not longer than the delegate suffix.
-/
theorem length_written {ω : Type} (fs : FileSystem (StateM ω)) (d : Declarations) (config : Config)
    (root : Path) (w : ω) (h : d.AllWritten config fs root w) :
    (∀ name, name ∈ ((d.generate config fs root).run w).1.2.requested ↔
        name ∈ (d.check config).1.generated
          ∨ ∃ t ∈ d.stranded config, t.interfaceFileName config = name)
      ∧ ((d.generate config fs root).run w).1.2.written.length =
        (d.check config).1.generated.length + (d.stranded config).length
      ∧ (config.validate = .ok () →
        config.interfaceSuffix.length ≤ config.delegateSuffix.length →
        d.stranded config = []) := by
  obtain ⟨-, hmirrors⟩ := Declarations.mirrors_generate h
  have hlists := d.lists_check config
  refine ⟨fun name => ?_, ?_, d.stranded_eq_nil⟩
  · rw [hmirrors.lists.mem_iff, ← hlists.mem_iff, List.mem_append, List.mem_map]
  · rw [hmirrors.written, ← hmirrors.lists.size_eq, hlists.size_eq, List.length_append,
      List.length_map]

/-- Two traits whose names differ by a letter at the end. -/
def crossing : Declarations where
  traits := [⟨"lib.A", [], none, [], []⟩, ⟨"lib.AX", [], none, [], []⟩]
  hosts := []

/-- With these suffixes `lib.AXT` is the interface of the first trait and the delegate of the
second. -/
def crossingConfig : Config :=
  { Config.default with interfaceSuffix := "XT", delegateSuffix := "T" }

theorem allWritten_crossing :
    crossing.AllWritten crossingConfig FileTree.fileSystem ⟨"out"⟩ .fresh := by
  decide +kernel

/-- The interface of the second trait is there, but the trait is not listed. -/
theorem length_written_crossing :
    crossing.AllWritten crossingConfig FileTree.fileSystem ⟨"out"⟩ .fresh
      ∧ ((crossing.generate crossingConfig FileTree.fileSystem ⟨"out"⟩).run
          .fresh).1.2.written.length =
        (crossing.check crossingConfig).1.generated.length
          + (crossing.stranded crossingConfig).length :=
  ⟨allWritten_crossing, (length_written FileTree.fileSystem crossing crossingConfig ⟨"out"⟩ .fresh
    allWritten_crossing).2.1⟩

/-- Not every check announces what is written: here there are three files, and two are listed. -/
theorem not_forall_length_written_eq :
    ¬ ∀ (d : Declarations) (config : Config) (root : Path) (t : FileTree),
      config.validate = .ok () →
      d.AllWritten config FileTree.fileSystem root t →
      ((d.generate config FileTree.fileSystem root).run t).1.2.written.length =
        (d.check config).1.generated.length := by
  intro h
  have hvalid : crossingConfig.validate = .ok () := by decide +kernel
  have heq := h crossing crossingConfig ⟨"out"⟩ .fresh hvalid allWritten_crossing
  have hne : ((crossing.generate crossingConfig FileTree.fileSystem ⟨"out"⟩).run
      .fresh).1.2.written.length ≠ (crossing.check crossingConfig).1.generated.length := by
    decide +kernel
  exact hne heq

end TraitWeaver
