import Mathlib.Data.Finset.Insert
import TraitWeaver.Proofs.Reordering
import TraitWeaver.Proofs.RoundAccount
import TraitWeaver.Proofs.Shortening

/-!
# The order of declarations

A round takes one generator, one place for files and one list of failed traits
through all its steps, so any step might notice what was done before it. It
notices very little:

* **Checking a trait** looks up the trait's own name, and puts in nothing but
  under that name.
* **Generating the files of the traits** follows the order of their names, and
  not that of their declarations.
* **Generating a host** looks at the traits that have failed, which are settled by
  then, at the host's own name and at the name of its superclass. Hosts of
  different names have superclasses of different names, whatever the options put
  in front of them (`eq_of_qualified_prepend`).

So both loops over declarations are made of independent steps, as long as no two
declarations mean the same name.
-/

namespace TraitWeaver

open RoundResult

/-! ## Names of superclasses -/

namespace DeclaredName

/-- What stands before the simple name where a name is written in full. -/
def front (n : DeclaredName) : List Char :=
  if n.package = "" then [] else n.package.toList ++ ['.']

theorem toList_qualified (n : DeclaredName) :
    n.qualified.toList = n.front ++ n.simple.toList := by
  unfold qualified front
  split
  · rfl
  · simp [String.toList_append, toString]

theorem package_eq_of_front_eq {m n : DeclaredName} (h : m.front = n.front) :
    m.package = n.package := by
  unfold front at h
  split at h <;> split at h
  · simp [*]
  · simp at h
  · simp at h
  · exact String.toList_inj.mp (List.append_cancel_right h)

/-- What follows the last dot of a text. -/
def tail (cs : List Char) : List Char := (cs.reverse.takeWhile (· ≠ '.')).reverse

theorem tail_append_of_not_mem {simple : List Char} (h : '.' ∉ simple) (cs : List Char) :
    tail (cs ++ simple) = tail cs ++ simple := by
  have hall : ∀ c ∈ simple.reverse, decide (c ≠ '.') = true := by
    intro c hc
    exact decide_eq_true fun he => h (he ▸ List.mem_reverse.mp hc)
  unfold tail
  rw [List.reverse_append, List.takeWhile_append_of_pos hall, List.reverse_append,
    List.reverse_reverse]

/-- A package before a text does not change what follows the last dot. -/
theorem tail_front_append (n : DeclaredName) (cs : List Char) : tail (n.front ++ cs) = tail cs := by
  have hfront : n.front.reverse.takeWhile (fun c => decide (c ≠ '.')) = [] := by
    unfold front
    split
    · rfl
    · rw [List.reverse_append]
      rfl
  unfold tail
  rw [List.reverse_append, List.takeWhile_append]
  split
  · rename_i hlength
    rw [hfront, List.append_nil,
      (List.takeWhile_prefix _).eq_of_length hlength]
  · rfl

/-- **Different names stay different when the same text is put in front of the simple names.** The
text may have dots in it. -/
theorem eq_of_qualified_prepend {m n : DeclaredName} (hm : IsSimple m.simple)
    (hn : IsSimple n.simple) {text : String}
    (h : (⟨m.package, text ++ m.simple⟩ : DeclaredName).qualified =
      (⟨n.package, text ++ n.simple⟩ : DeclaredName).qualified) : m = n := by
  have hchars : ∀ k : DeclaredName,
      (⟨k.package, text ++ k.simple⟩ : DeclaredName).qualified.toList =
        (k.front ++ text.toList) ++ k.simple.toList := by
    intro k
    rw [toList_qualified, String.toList_append, List.append_assoc]
    rfl
  have he := congrArg String.toList h
  rw [hchars, hchars] at he
  -- behind the last dot there is a simple name behind what follows the last dot of the text
  have hsimple : m.simple.toList = n.simple.toList := by
    have htail := congrArg tail he
    rw [tail_append_of_not_mem hm.2, tail_append_of_not_mem hn.2, tail_front_append,
      tail_front_append] at htail
    exact List.append_cancel_left htail
  rw [hsimple] at he
  have hpackage := package_eq_of_front_eq (List.append_cancel_right (List.append_cancel_right he))
  obtain ⟨package, simple⟩ := m
  obtain ⟨package', simple'⟩ := n
  obtain rfl : package = package' := hpackage
  obtain rfl : simple = simple' := String.toList_inj.mp hsimple
  rfl

end DeclaredName

/-! ## Checking the traits -/

namespace TraitIndex

theorem insert_comm {t u : Trait} (h : t.qualifiedName ≠ u.qualifiedName) (index : TraitIndex) :
    (index.insert t).insert u = (index.insert u).insert t :=
  congrArg TraitIndex.mk (SortedMap.insert_comm h t u index.byName)

end TraitIndex

/-- The name of the trait that a declaration means. -/
def TraitDecl.name? (config : Config) (d : TraitDecl) : Option String :=
  (d.resolve config).toOption.map (·.1.qualifiedName)

namespace Declarations

/-- The checks of the traits, as a loop. -/
def checking (config : Config) : Loop TraitIndex TraitDecl where
  next index d := (addTrait config (index, .empty) d).1
  noted index d := (addTrait config (index, .empty) d).2

theorem step_checking (config : Config) : (checking config).step = addTrait config := by
  funext state d
  obtain ⟨index, result⟩ := state
  unfold Loop.step checking addTrait
  dsimp only
  cases d.resolve config with
  | error e => simp
  | ok resolved =>
      obtain ⟨t, ds⟩ := resolved
      dsimp only
      split
      · simp
      · simp

section

variable {config : Config} {d : TraitDecl}

theorem checking_of_error {e : DeclarationError} (h : d.resolve config = .error e)
    (index : TraitIndex) :
    addTrait config (index, .empty) d = (index, empty.skipTrait (e.diagnostic d.name)) := by
  unfold addTrait
  rw [h]

theorem checking_of_ok {t : Trait} {ds : List Diagnostic} (h : d.resolve config = .ok (t, ds))
    (index : TraitIndex) :
    addTrait config (index, .empty) d =
      if (index.get? t.qualifiedName).isSome then
        (index, (empty.report ds).skipTrait
          ((DeclarationError.duplicateTrait t.qualifiedName).diagnostic d.name))
      else (index.insert t, empty.report ds) := by
  unfold addTrait
  rw [h]

theorem next_checking_of_error {e : DeclarationError} (h : d.resolve config = .error e)
    (index : TraitIndex) : (checking config).next index d = index :=
  congrArg Prod.fst (checking_of_error h index)

theorem next_checking_of_ok {t : Trait} {ds : List Diagnostic}
    (h : d.resolve config = .ok (t, ds)) (index : TraitIndex) :
    (checking config).next index d =
      if (index.get? t.qualifiedName).isSome then index else index.insert t := by
  show (addTrait config (index, .empty) d).1 = _
  rw [checking_of_ok h, apply_ite Prod.fst]

theorem name?_of_ok {t : Trait} {ds : List Diagnostic} (h : d.resolve config = .ok (t, ds)) :
    d.name? config = some t.qualifiedName := by
  unfold TraitDecl.name?
  rw [h]
  rfl

/-- A trait of another name is found, or not found, as before. -/
theorem get?_next_checking {name : String}
    (h : ∀ name', d.name? config = some name' → name ≠ name') (index : TraitIndex) :
    ((checking config).next index d).get? name = index.get? name := by
  cases hd : d.resolve config with
  | error e => rw [next_checking_of_error hd]
  | ok resolved =>
      obtain ⟨t, ds⟩ := resolved
      rw [next_checking_of_ok hd]
      split
      · rfl
      · rw [TraitIndex.get?_insert, if_neg (h _ (name?_of_ok hd))]

end

theorem independent_checking (config : Config) :
    (checking config).Independent (·.name? config) where
  next_comm := by
    intro a b hab index
    cases ha : a.resolve config with
    | error e => rw [next_checking_of_error ha, next_checking_of_error ha]
    | ok ra =>
        cases hb : b.resolve config with
        | error e => rw [next_checking_of_error hb, next_checking_of_error hb]
        | ok rb =>
            obtain ⟨t, dst⟩ := ra
            obtain ⟨u, dsu⟩ := rb
            have hne : t.qualifiedName ≠ u.qualifiedName :=
              hab _ (name?_of_ok ha) _ (name?_of_ok hb)
            -- each of the two looks up its own name, which the other one leaves alone
            have hu : ((checking config).next index a).get? u.qualifiedName =
                index.get? u.qualifiedName :=
              get?_next_checking (fun name hname => (hab name hname _ (name?_of_ok hb)).symm) index
            have ht : ((checking config).next index b).get? t.qualifiedName =
                index.get? t.qualifiedName :=
              get?_next_checking (fun name hname => hab _ (name?_of_ok ha) name hname) index
            rw [next_checking_of_ok hb ((checking config).next index a), hu,
              next_checking_of_ok ha ((checking config).next index b), ht,
              next_checking_of_ok ha index, next_checking_of_ok hb index]
            split <;> split
            · rfl
            · rfl
            · rfl
            · exact TraitIndex.insert_comm hne index
  noted_next := by
    intro a b hab index
    show (addTrait config ((checking config).next index a, .empty) b).2 =
      (addTrait config (index, .empty) b).2
    cases hb : b.resolve config with
    | error e => rw [checking_of_error hb, checking_of_error hb]
    | ok resolved =>
        obtain ⟨t, ds⟩ := resolved
        have hname : ∀ name', a.name? config = some name' → t.qualifiedName ≠ name' :=
          fun name' ha => (hab name' ha _ (name?_of_ok hb)).symm
        rw [checking_of_ok hb, checking_of_ok hb, get?_next_checking hname]
        split <;> rfl

end Declarations

/-! ## Generating the hosts -/

/-- The name of the host that a declaration means. -/
def HostDecl.name? (d : HostDecl) : Option String :=
  (DeclaredName.ofQualified d.name).toOption.map (·.qualified)

/-- What steps for hosts can see of those before them: the names of the hosts that were served, and
the files. -/
abbrev Traces : Type := Finset String × Memory

section

variable (refused : String → Option FileFault) (config : Config)

/-- The file that is created for a host, or else why there is none. -/
def Host.fileIn (h : Host) (s : Traces) : Except GenerationError SourceFile :=
  if h.qualifiedName ∈ s.1 then .error (.alreadyGenerated h.qualifiedName)
  else
    match Generator.finish (h.superclassFile config) h.qualifiedName with
    | .error e => .error e
    | .ok file =>
      match refused file.name with
      | some fault => .error (.io file.name fault)
      | none =>
        if (s.2.get? file.name).isSome then .error (.io file.name (alreadyCreated file.name))
        else .ok file

end

variable {refused : String → Option FileFault} {config : Config}

theorem Generator.name_of_finish {u : CompilationUnit} {origin : String} {file : SourceFile}
    (h : finish u origin = .ok file) : file.name = u.name.qualified := by
  unfold finish at h
  split at h
  · rw [← Except.ok.inj h]
  · cases h

namespace Host

variable {h : Host} {s s' : Traces}

/-- A host depends on its own name and on the name of its own file, and on nothing else. -/
theorem fileIn_congr (hserved : h.qualifiedName ∈ s.1 ↔ h.qualifiedName ∈ s'.1)
    (hfile : s.2.get? (h.superclassName config) = s'.2.get? (h.superclassName config)) :
    h.fileIn refused config s = h.fileIn refused config s' := by
  unfold fileIn
  by_cases hs : h.qualifiedName ∈ s.1
  · rw [if_pos hs, if_pos (hserved.mp hs)]
  · rw [if_neg hs, if_neg (fun hs' => hs (hserved.mpr hs'))]
    cases hfinish : Generator.finish (h.superclassFile config) h.qualifiedName with
    | error e => rfl
    | ok file =>
        have hname : file.name = h.superclassName config := Generator.name_of_finish hfinish
        rw [← hname] at hfile
        dsimp only
        rw [hfile]

theorem name_of_fileIn {file : SourceFile} (hfile : h.fileIn refused config s = .ok file) :
    file.name = h.superclassName config := by
  unfold fileIn at hfile
  split at hfile
  · cases hfile
  · split at hfile
    · cases hfile
    · rename_i finished hfinish
      split at hfile
      · cases hfile
      · split at hfile
        · cases hfile
        · obtain rfl := Except.ok.inj hfile
          exact Generator.name_of_finish hfinish

theorem free_of_fileIn {file : SourceFile} (hfile : h.fileIn refused config s = .ok file) :
    s.2.get? file.name = none := by
  unfold fileIn at hfile
  split at hfile
  · cases hfile
  · split at hfile
    · cases hfile
    · split at hfile
      · cases hfile
      · split at hfile
        · cases hfile
        · rename_i hfree
          obtain rfl := Except.ok.inj hfile
          exact Option.not_isSome_iff_eq_none.mp hfree

end Host

theorem Generator.run_answer_host (g : Generator) (files : Memory) (h : Host) :
    (g.answer (Memory.filer refused) (.host h)).run files =
      match h.fileIn refused g.config (g.hostsDone.toFinset, files) with
      | .ok file =>
        ((.ok [file.name], (Request.host h).noted g), files.insert file.name file.text)
      | .error e => ((.error e, g), files) := by
  rw [answer_eq]
  unfold Host.fileIn Request.finished
  simp only [Request.units, Request.origin, Request.served, List.mapM_cons, List.mapM_nil,
    List.mem_toFinset]
  by_cases hserved : h.qualifiedName ∈ g.hostsDone
  · rw [if_pos hserved, if_pos hserved]
    rfl
  · rw [if_neg hserved, if_neg hserved]
    cases finish (h.superclassFile g.config) h.qualifiedName with
    | error e => rfl
    | ok file =>
        show ((createAll (Memory.filer refused) [file]) >>= _).run files = _
        rw [createAll, StateT.run_bind, StateT.run_bind, Memory.run_filer_create]
        dsimp only
        cases refused file.name with
        | some fault => rfl
        | none =>
            dsimp only
            split
            · rfl
            · rfl

namespace Declarations

variable {index : TraitIndex} {failed : List String}

/-- What comes of a host: its file, or what is reported. -/
def hostOutcome (refused : String → Option FileFault) (config : Config) (index : TraitIndex)
    (failed : List String) (s : Traces) (d : HostDecl) : Except Diagnostic (Host × SourceFile) :=
  match accept index failed d with
  | .error fault => .error fault
  | .ok host =>
    match host.fileIn refused config s with
    | .error e => .error (.errorAt d.name e.message)
    | .ok file => .ok (host, file)

/-- What is left behind by a host. -/
def hostTrace (s : Traces) : Except Diagnostic (Host × SourceFile) → Traces
  | .error _ => s
  | .ok (host, file) => (insert host.qualifiedName s.1, s.2.insert file.name file.text)

/-- The steps for the hosts, as a loop. -/
def hosting (refused : String → Option FileFault) (config : Config) (index : TraitIndex)
    (failed : List String) : Loop Traces HostDecl where
  next s d := hostTrace s (hostOutcome refused config index failed s d)
  noted s d :=
    match hostOutcome refused config index failed s d with
    | .error fault => (empty.report (d.resolve index).2).skipHost fault
    | .ok (_, file) => (empty.report (d.resolve index).2).addGenerated [file.name]

theorem ofQualified_of_accept {d : HostDecl} {host : Host}
    (h : accept index failed d = .ok host) : DeclaredName.ofQualified d.name = .ok host.name := by
  obtain ⟨name, _, _, _, hname, -, -, -, -, rfl⟩ :=
    HostDecl.resolve_eq_ok_iff.mp (accept_eq_ok_iff.mp h).1
  exact hname

theorem name?_of_accept {d : HostDecl} {host : Host} (h : accept index failed d = .ok host) :
    d.name? = some host.qualifiedName := by
  unfold HostDecl.name?
  rw [ofQualified_of_accept h]
  rfl

/-- Hosts of different names have superclasses of different names. -/
theorem superclassName_ne_of_accept {a b : HostDecl} {h k : Host}
    (ha : accept index failed a = .ok h) (hb : accept index failed b = .ok k)
    (hne : h.qualifiedName ≠ k.qualifiedName) :
    h.superclassName config ≠ k.superclassName config := by
  intro he
  have hnames : h.name = k.name := DeclaredName.eq_of_qualified_prepend
    (DeclaredName.isSimple_of_ofQualified (ofQualified_of_accept ha))
    (DeclaredName.isSimple_of_ofQualified (ofQualified_of_accept hb)) he
  exact hne (congrArg DeclaredName.qualified hnames)

theorem hostOutcome_eq_ok {s : Traces} {d : HostDecl} {host : Host} {file : SourceFile}
    (h : hostOutcome refused config index failed s d = .ok (host, file)) :
    accept index failed d = .ok host ∧ file.name = host.superclassName config := by
  unfold hostOutcome at h
  split at h
  · cases h
  · rename_i haccept
    split at h
    · cases h
    · rename_i hfile
      obtain ⟨rfl, rfl⟩ := Prod.mk.inj (Except.ok.inj h)
      exact ⟨haccept, Host.name_of_fileIn hfile⟩

/-- **What comes of a host does not depend on a host of another name before it.** -/
theorem hostOutcome_next {a b : HostDecl} (hab : Loop.Apart HostDecl.name? a b) (s : Traces) :
    hostOutcome refused config index failed ((hosting refused config index failed).next s a) b =
      hostOutcome refused config index failed s b := by
  show hostOutcome refused config index failed (hostTrace s (hostOutcome _ _ _ _ s a)) b = _
  cases ha : hostOutcome refused config index failed s a with
  | error fault => rfl
  | ok made =>
      obtain ⟨h, file⟩ := made
      obtain ⟨haccept, hname⟩ := hostOutcome_eq_ok ha
      unfold hostOutcome
      cases hb : accept index failed b with
      | error fault => rfl
      | ok k =>
          have hne : h.qualifiedName ≠ k.qualifiedName :=
            hab _ (name?_of_accept haccept) _ (name?_of_accept hb)
          have hfiles : k.superclassName config ≠ file.name := by
            rw [hname]
            exact (superclassName_ne_of_accept haccept hb hne).symm
          have hfile : k.fileIn refused config (hostTrace s (.ok (h, file))) =
              k.fileIn refused config s := by
            refine Host.fileIn_congr ?_ ?_
            · exact Finset.mem_insert.trans (or_iff_right hne.symm)
            · exact (SortedMap.get?_insert s.2 _ _ _).trans (if_neg hfiles)
          dsimp only
          rw [hfile]

theorem independent_hosting (refused : String → Option FileFault) (config : Config)
    (index : TraitIndex) (failed : List String) :
    (hosting refused config index failed).Independent HostDecl.name? where
  next_comm := by
    intro a b hab s
    show hostTrace (hostTrace s _) (hostOutcome refused config index failed _ b) =
      hostTrace (hostTrace s _) (hostOutcome refused config index failed _ a)
    rw [hostOutcome_next hab, hostOutcome_next hab.symm]
    cases ha : hostOutcome refused config index failed s a with
    | error fault => rfl
    | ok made =>
        cases hb : hostOutcome refused config index failed s b with
        | error fault => rfl
        | ok made' =>
            obtain ⟨h, file⟩ := made
            obtain ⟨k, file'⟩ := made'
            obtain ⟨hacceptA, hname⟩ := hostOutcome_eq_ok ha
            obtain ⟨hacceptB, hname'⟩ := hostOutcome_eq_ok hb
            have hne : h.qualifiedName ≠ k.qualifiedName :=
              hab _ (name?_of_accept hacceptA) _ (name?_of_accept hacceptB)
            have hfiles : file.name ≠ file'.name := by
              rw [hname, hname']
              exact superclassName_ne_of_accept hacceptA hacceptB hne
            exact Prod.ext (Finset.insert_comm _ _ _) (SortedMap.insert_comm hfiles _ _ _)
  noted_next := by
    intro a b hab s
    show (match hostOutcome refused config index failed _ b with
      | .error fault => (empty.report (b.resolve index).2).skipHost fault
      | .ok (_, file) => (empty.report (b.resolve index).2).addGenerated [file.name]) = _
    rw [hostOutcome_next hab]
    rfl

/-- What a round has come to, as far as the steps for hosts can see or write it. -/
def Progress.seen (p : Progress) (files : Memory) : Traces × RoundResult :=
  ((p.generator.hostsDone.toFinset, files), p.result)

theorem run_generateHost (refused : String → Option FileFault) (index : TraitIndex) (p : Progress)
    (files : Memory) (d : HostDecl) :
    let after := (generateHost (Memory.filer refused) index p d).run files
    after.1.generator.config = p.generator.config ∧ after.1.failed = p.failed
      ∧ after.1.seen after.2 =
        (hosting refused p.generator.config index p.failed).step (p.seen files) d := by
  dsimp only
  rw [generateHost_eq]
  unfold Loop.step hosting hostOutcome
  dsimp only
  cases haccept : accept index p.failed d with
  | error fault =>
      refine ⟨rfl, rfl, Prod.ext rfl ?_⟩
      show _ = p.result.append ((empty.report _).skipHost _)
      rw [append_skipHost, append_report, append_empty]
      rfl
  | ok host =>
      dsimp only
      rw [StateT.run_map, Generator.run_answer_host]
      have hseen : (p.seen files).1 = (p.generator.hostsDone.toFinset, files) := rfl
      rw [hseen]
      cases host.fileIn refused p.generator.config (p.generator.hostsDone.toFinset, files) with
      | error e =>
          refine ⟨rfl, rfl, Prod.ext rfl ?_⟩
          show _ = p.result.append ((empty.report _).skipHost _)
          rw [append_skipHost, append_report, append_empty]
          rfl
      | ok file =>
          refine ⟨rfl, rfl, Prod.ext (Prod.ext List.toFinset_cons rfl) ?_⟩
          show _ = p.result.append ((empty.report _).addGenerated _)
          rw [append_addGenerated, append_report, append_empty]
          rfl

/-- **The hosts of a round are generated in independent steps.** -/
theorem run_hosts (refused : String → Option FileFault) (index : TraitIndex) (p : Progress)
    (files : Memory) (hosts : List HostDecl) :
    let after := (hosts.foldlM (generateHost (Memory.filer refused) index) p).run files
    after.1.seen after.2 =
      hosts.foldl (hosting refused p.generator.config index p.failed).step (p.seen files) := by
  have hinv := foldlM_induction
    (fun done (q : Progress) m => q.generator.config = p.generator.config ∧ q.failed = p.failed
      ∧ q.seen m =
        done.foldl (hosting refused p.generator.config index p.failed).step (p.seen files))
    ?_ (Prod.eta ((hosts.foldlM (generateHost (Memory.filer refused) index) p).run files)).symm
    ⟨rfl, rfl, rfl⟩
  · exact hinv.2.2
  · rintro done d q m q' m' - ⟨hconfig, hfailed, hseen⟩ hstep
    have hafter := run_generateHost refused index q m d
    rw [hstep] at hafter
    obtain ⟨hconfig', hfailed', hseen'⟩ := hafter
    refine ⟨hconfig'.trans hconfig, hfailed'.trans hfailed, ?_⟩
    rw [List.foldl_append, List.foldl_cons, List.foldl_nil, ← hseen, hseen', hconfig, hfailed]

/-! ## Whole rounds -/

theorem checkTraits_eq (d : Declarations) (config : Config) :
    d.checkTraits config = d.traits.foldl (checking config).step (.empty, .empty) := by
  rw [step_checking]
  rfl

theorem checkTraits_perm {d : Declarations} {config : Config} {traits : List TraitDecl}
    (hperm : traits.Perm d.traits) (hnodup : (d.traits.filterMap (·.name? config)).Nodup) :
    Loop.Agree (({ d with traits } : Declarations).checkTraits config) (d.checkTraits config) := by
  rw [checkTraits_eq, checkTraits_eq]
  exact (independent_checking config).foldl_step_perm hperm
    ((hperm.filterMap _).nodup_iff.mpr hnodup) ⟨rfl, Reordered.refl _⟩

/-- The declarations without the traits that cannot be resolved. -/
def sound (d : Declarations) (config : Config) : Declarations :=
  { d with traits := d.traits.filter fun t => (t.resolve config).isOk }

/-- A declaration that is refused leaves nothing behind that a later one could see. -/
theorem checkTraits_sound_fst (d : Declarations) (config : Config) :
    ((d.sound config).checkTraits config).1 = (d.checkTraits config).1 := by
  unfold sound
  rw [checkTraits_eq, checkTraits_eq, Loop.foldl_step_fst, Loop.foldl_step_fst, List.foldl_filter]
  refine congrArg (fun next => d.traits.foldl next _) (funext fun index => funext fun t => ?_)
  cases h : t.resolve config with
  | error e => exact (next_checking_of_error h index).symm
  | ok resolved => rfl

/-- After checks that leave the same traits, the same is generated. -/
theorem exists_run_process_of_index_eq {d d' : Declarations} {config : Config}
    (hindex : (d'.checkTraits config).1 = (d.checkTraits config).1) (hhosts : d'.hosts = d.hosts)
    (refused : String → Option FileFault) (files : Memory) :
    ∃ made files', (d.process config (Memory.filer refused)).run files =
        ((d.checkTraits config).2.append made, files')
      ∧ (d'.process config (Memory.filer refused)).run files =
        ((d'.checkTraits config).2.append made, files') := by
  rw [process_eq, process_eq, hindex, hhosts]
  exact ⟨_, _, rfl, rfl⟩

/-- With the same traits, rounds come to their hosts in the same way. -/
theorem exists_run_process_of_traits (d : Declarations) (config : Config)
    (refused : String → Option FileFault) (files : Memory) :
    ∃ (l : Loop Traces HostDecl) (x : Traces × RoundResult), l.Independent HostDecl.name?
      ∧ ∀ hosts,
        (({ d with hosts } : Declarations).process config (Memory.filer refused)).run files =
          ((d.checkTraits config).2.append (hosts.foldl l.step x).2,
            (hosts.foldl l.step x).1.2) := by
  -- the traits are generated before any host is looked at
  let start := ((d.checkTraits config).1.traits.foldlM (generateTrait (Memory.filer refused))
    ⟨.new config, [], .empty⟩).run files
  refine ⟨hosting refused start.1.generator.config (d.checkTraits config).1 start.1.failed,
    start.1.seen start.2, independent_hosting _ _ _ _, fun hosts => ?_⟩
  rw [run_process, ← run_hosts]
  rfl

/-- What does not count for what a round comes to. -/
structure Steady (run : Declarations → RoundResult × Memory) (config : Config) (d : Declarations) :
    Prop where
  /-- In what order the traits are declared: all stays as it is, but the diagnostics may come in
  another order. -/
  traits_perm : ∀ traits, traits.Perm d.traits →
    (run { d with traits }).2 = (run d).2
      ∧ (run { d with traits }).1.generated = (run d).1.generated
      ∧ (run { d with traits }).1.Reordered (run d).1
  /-- In what order the hosts are declared: the files stay as they are, and what is written down may
  come in another order. -/
  hosts_perm : ∀ hosts, hosts.Perm d.hosts →
    (run { d with hosts }).2 = (run d).2 ∧ (run { d with hosts }).1.Reordered (run d).1
  /-- What other traits are declared that cannot be resolved. -/
  broken_traits : (run (d.sound config)).2 = (run d).2
    ∧ (run (d.sound config)).1.generated = (run d).1.generated
    ∧ (run (d.sound config)).1.skippedHosts = (run d).1.skippedHosts

/--
**A round depends neither on the order of its declarations nor on broken ones.**

Traits and hosts must have different names, for of two with one name the first is
taken. Declarations without a valid name do not count here: they are refused
wherever they stand.
-/
theorem steady_process {d : Declarations} {config : Config} (refused : String → Option FileFault)
    (files : Memory) (htraits : (d.traits.filterMap (·.name? config)).Nodup)
    (hhosts : (d.hosts.filterMap (·.name?)).Nodup) :
    Steady (fun d => (d.process config (Memory.filer refused)).run files) config d where
  traits_perm := by
    intro traits hperm
    obtain ⟨hindex, hresult⟩ := checkTraits_perm hperm htraits
    obtain ⟨made, files', hrun, hrun'⟩ := exists_run_process_of_index_eq hindex rfl refused files
    rw [hrun, hrun']
    refine ⟨rfl, ?_, hresult.append (Reordered.refl _)⟩
    show _ ++ _ = _ ++ _
    rw [(checked_checkTraits d config).generated, (checked_checkTraits _ config).generated]
  hosts_perm := by
    intro hosts hperm
    obtain ⟨l, x, hl, hrun⟩ := exists_run_process_of_traits d config refused files
    obtain ⟨hstate, hresult⟩ := hl.foldl_step_perm hperm ((hperm.filterMap _).nodup_iff.mpr hhosts)
      (⟨rfl, Reordered.refl _⟩ : Loop.Agree x x)
    rw [hrun hosts, hrun d.hosts, hstate]
    exact ⟨rfl, (Reordered.refl _).append hresult⟩
  broken_traits := by
    obtain ⟨made, files', hrun, hrun'⟩ :=
      exists_run_process_of_index_eq (checkTraits_sound_fst d config) rfl refused files
    rw [hrun, hrun']
    refine ⟨rfl, ?_, ?_⟩
    · show _ ++ _ = _ ++ _
      rw [(checked_checkTraits d config).generated, (checked_checkTraits _ config).generated]
    · show _ + _ = _ + _
      rw [(checked_checkTraits d config).skippedHosts, (checked_checkTraits _ config).skippedHosts]

/-- A round in which one trait has no name, one trait is locked, and one host composes a trait that
is not there. -/
def mixed : Declarations where
  traits := [⟨"lib.Secret", [], none, [], []⟩, ⟨"lib.", [], none, [], []⟩,
    ⟨"lib.Greeter", [], none, [], []⟩]
  hosts := [⟨"app.Person", ["Greeter"], none, []⟩, ⟨"app.Ghost", ["Nobody"], none, []⟩,
    ⟨"app.Spy", ["Greeter", "Secret"], none, []⟩]

theorem steady_process_mixed :
    (mixed.traits.filterMap (·.name? .bare)).Nodup ∧ (mixed.hosts.filterMap (·.name?)).Nodup
      ∧ (mixed.sound .bare).traits.length = 2
      ∧ Steady (fun d => (d.process .bare (Memory.filer lock)).run .empty) .bare mixed :=
  ⟨by decide +kernel, by decide +kernel, by decide +kernel,
    steady_process lock .empty (by decide +kernel) (by decide +kernel)⟩

end Declarations

end TraitWeaver
