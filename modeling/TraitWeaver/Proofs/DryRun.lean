import TraitWeaver.CommandLine.Run
import TraitWeaver.FileTree
import TraitWeaver.Proofs.AnyFiler
import TraitWeaver.Proofs.Filing

/-!
# Checking is generating into memory

A check runs the same round as a generation, but its files go into memory and not
into a directory. The two filers are quite different: one has a map of texts, the
other a list of names that were asked for, a list of paths, and a file system that
may refuse anything.

If it refuses a file, the round goes on, and so does the list of names. The file
will be missing in the end, since no later call can write it: its name is taken. So
it is enough to look once, after the round. If each file that was asked for is
finished then (`Declarations.AllWritten`), none has been missing at any time, and up
to each file memory and directory had the same names (`Memory.Mirrors`). This is what
makes the two rounds one.

The directory does not know which files are finished. It takes a file down when it is
created, and then its text can still be refused. So the names of the files that are
finished are kept beside it here (`Filer.noting`).
-/

namespace TraitWeaver

variable {ω : Type}

namespace SortedMap

theorem size_insert {α : Type} {m : SortedMap α} {key : String} (h : m.get? key = none)
    (value : α) : (m.insert key value).size = m.size + 1 :=
  (insertEntry_perm h value).length_eq

end SortedMap

namespace OutputDirectory

/-- No fewer files are missing than before: files that were asked for and are not finished. -/
def MissesNoLess (finished : List String) (d : OutputDirectory) (finished' : List String)
    (d' : OutputDirectory) : Prop :=
  d.requested.length + finished'.length ≤ d'.requested.length + finished.length

theorem MissesNoLess.trans {l₁ l₂ l₃ : List String} {d₁ d₂ d₃ : OutputDirectory}
    (h : MissesNoLess l₁ d₁ l₂ d₂) (h' : MissesNoLess l₂ d₂ l₃ d₃) :
    MissesNoLess l₁ d₁ l₃ d₃ := by
  unfold MissesNoLess at *
  omega

/-- A file is refused if it was asked for before, and else the file system decides. What it has
created is taken down, whatever becomes of the text. -/
theorem run_filer_create (fs : FileSystem (StateM ω)) (file : SourceFile) (d : OutputDirectory)
    (w : ω) :
    (((filer fs).create file).run d).run w =
      if file.name ∈ d.requested then ((.error (alreadyCreated file.name), d), w)
      else
        let next : OutputDirectory := { d with requested := file.name :: d.requested }
        match (fs.createFile (d.pathOf file.name)).run w with
        | (.error fault, w') => ((.error fault, next), w')
        | (.ok handle, w') =>
          let (answer, w'') := (fs.write handle file.text).run w'
          ((answer, next.addWritten (d.pathOf file.name)), w'') := by
  unfold filer request
  dsimp only
  rw [StateT.run_bind, StateT.run_get, pure_bind]
  by_cases hname : file.name ∈ d.requested
  · rw [if_pos hname, if_pos hname]
    rfl
  · rw [if_neg hname, if_neg hname]
    dsimp only
    rw [StateT.run_bind, StateT.run_set, pure_bind, StateT.run_bind, StateT.run_monadLift]
    cases hw : (fs.createFile (d.pathOf file.name)).run w with
    | mk created w' =>
        rw [StateT.run_bind, bind_pure_comp, StateT.run_map]
        dsimp only [monadLift_self]
        rw [hw]
        cases created with
        | error fault => rfl
        | ok handle => rfl

theorem run_noting_create (fs : FileSystem (StateM ω)) (file : SourceFile) (finished : List String)
    (d : OutputDirectory) (w : ω) :
    ((((filer fs).noting.create file).run finished).run d).run w =
      let ((answer, d'), w') := (((filer fs).create file).run d).run w
      (((answer, if answer.isOk then file.name :: finished else finished), d'), w') := by
  rw [Filer.run_noting_create]
  rfl

end OutputDirectory

/-! ## Memory beside a directory -/

/-- The names of the files in memory, each of them once. -/
structure Memory.Lists (files : Memory) (names : List String) : Prop where
  mem_iff : ∀ name, name ∈ names ↔ (files.get? name).isSome
  size_eq : files.size = names.length

theorem Memory.lists_empty : Memory.Lists .empty [] where
  mem_iff _ := iff_of_false List.not_mem_nil Bool.false_ne_true
  size_eq := rfl

namespace Memory.Lists

variable {files : Memory} {names : List String}

theorem not_mem (h : files.Lists names) {name : String} (hfree : files.get? name = none) :
    name ∉ names := by
  rw [h.mem_iff, hfree]
  exact Bool.false_ne_true

theorem insert (h : files.Lists names) {name : String} (hnew : name ∉ names) (text : String) :
    Memory.Lists (SortedMap.insert files name text) (name :: names) where
  mem_iff other := by
    rw [SortedMap.get?_insert, List.mem_cons]
    by_cases hname : other = name
    · rw [if_pos hname]
      exact iff_of_true (Or.inl hname) rfl
    · rw [if_neg hname, or_iff_right hname]
      exact h.mem_iff other
  size_eq := by
    have hfree : files.get? name = none := by
      rw [← Option.not_isSome_iff_eq_none, ← h.mem_iff]
      exact hnew
    rw [SortedMap.size_insert hfree, h.size_eq]
    rfl

theorem perm (h : files.Lists names) {names' : List String} (hperm : names'.Perm names) :
    files.Lists names' where
  mem_iff name := hperm.mem_iff.trans (h.mem_iff name)
  size_eq := h.size_eq.trans hperm.length_eq.symm

end Memory.Lists

/-- The same files are in memory and in a directory, and none of them is missing there. -/
structure Memory.Mirrors (files : Memory) (finished : List String) (d : OutputDirectory) :
    Prop where
  lists : files.Lists d.requested
  finished : finished.length = d.requested.length
  written : d.written.length = d.requested.length

theorem Memory.mirrors_new (root : Path) : Memory.Mirrors .empty [] (.new root) where
  lists := lists_empty
  finished := rfl
  written := rfl

/-- A file that both take. -/
theorem Memory.Mirrors.insert {files : Memory} {finished : List String} {d : OutputDirectory}
    (h : files.Mirrors finished d) {file : SourceFile} (hnew : file.name ∉ d.requested)
    (path : Path) :
    Memory.Mirrors (files.insert file.name file.text) (file.name :: finished)
      (OutputDirectory.addWritten { d with requested := file.name :: d.requested } path) where
  lists := h.lists.insert hnew file.text
  finished := congrArg (· + 1) h.finished
  written := congrArg (· + 1) h.written

/-- A file that is asked for and not finished is missing. -/
theorem Memory.Mirrors.not_length_le {files : Memory} {finished : List String}
    {d : OutputDirectory} (h : files.Mirrors finished d) (name : String) :
    ¬ (name :: d.requested).length ≤ finished.length := by
  rw [h.finished]
  exact Nat.not_succ_le_self _

/-- What is done with memory comes to the same as what is done with a directory, unless a file is
missing there in the end. That cannot be made up for, so then it was not missing at any time. -/
def mirroring (ω : Type) :
    Correspondence (StateM Memory) (StateT (List String) (StateT OutputDirectory (StateM ω))) where
  Holds x y := ∀ finished d w a finished' d' w',
    ((y.run finished).run d).run w = (((a, finished'), d'), w') →
    OutputDirectory.MissesNoLess finished d finished' d' ∧
      ∀ files : Memory, files.Mirrors finished d → d'.requested.length ≤ finished'.length →
        ∃ files', x.run files = (a, files') ∧ files'.Mirrors finished' d'
  pure a := by
    rintro finished d w _ _ _ _ ⟨rfl, rfl, rfl, rfl⟩
    exact ⟨Nat.le_refl _, fun files h _ => ⟨files, rfl, h⟩⟩
  bind := by
    intro α β x y f g hxy hfg finished d w b finished' d' w' hrun
    rw [StateT.run_bind, StateT.run_bind, StateT.run_bind] at hrun
    cases hy : ((y.run finished).run d).run w with
    | mk outcome w₁ =>
        obtain ⟨⟨a, finished₁⟩, d₁⟩ := outcome
        rw [hy] at hrun
        obtain ⟨hmissing, hsame⟩ := hxy finished d w a finished₁ d₁ w₁ hy
        obtain ⟨hmissing', hsame'⟩ := hfg a finished₁ d₁ w₁ b finished' d' w' hrun
        refine ⟨hmissing.trans hmissing', fun files hfiles hall => ?_⟩
        have hall₁ : d₁.requested.length ≤ finished₁.length := by
          unfold OutputDirectory.MissesNoLess at hmissing'
          omega
        obtain ⟨files₁, hx, hfiles₁⟩ := hsame files hfiles hall₁
        obtain ⟨files', hf, hfiles'⟩ := hsame' files₁ hfiles₁ hall
        refine ⟨files', ?_, hfiles'⟩
        rw [StateT.run_bind, hx]
        exact hf

/-- **The two filers correspond at each file.** -/
theorem mirroring_create (fs : FileSystem (StateM ω)) (file : SourceFile) :
    (mirroring ω).Holds ((Memory.filer fun _ => none).create file)
      ((OutputDirectory.filer fs).noting.create file) := by
  intro finished d w answer finished' d' w' hrun
  rw [OutputDirectory.run_noting_create, OutputDirectory.run_filer_create] at hrun
  by_cases hname : file.name ∈ d.requested
  · rw [if_pos hname] at hrun
    cases hrun
    refine ⟨Nat.le_refl _, fun files hfiles _ => ⟨files, ?_, hfiles⟩⟩
    rw [Memory.run_filer_create]
    dsimp only
    rw [if_pos ((hfiles.lists.mem_iff _).mp hname)]
  · rw [if_neg hname] at hrun
    have hrefused : d.requested.length + finished.length ≤
        (file.name :: d.requested).length + finished.length :=
      Nat.add_le_add_right (Nat.le_succ _) _
    cases hcreate : (fs.createFile (d.pathOf file.name)).run w with
    | mk created w₁ =>
        rw [hcreate] at hrun
        cases created with
        | error fault =>
            cases hrun
            exact ⟨hrefused, fun _ hfiles hall => absurd hall (hfiles.not_length_le file.name)⟩
        | ok handle =>
            dsimp only at hrun
            cases hwrite : (fs.write handle file.text).run w₁ with
            | mk answer w₂ =>
                rw [hwrite] at hrun
                cases answer with
                | error fault =>
                    -- the file has been created, but it is missing all the same
                    cases hrun
                    exact ⟨hrefused, fun _ hfiles hall =>
                      absurd hall (hfiles.not_length_le file.name)⟩
                | ok =>
                    cases hrun
                    refine ⟨?_, fun files hfiles _ => ⟨_, ?_, hfiles.insert hname _⟩⟩
                    · exact Nat.le_of_eq (Nat.succ_add_eq_add_succ _ _).symm
                    · rw [Memory.run_filer_create]
                      dsimp only
                      rw [if_neg (fun h => hname ((hfiles.lists.mem_iff _).mpr h))]

namespace Declarations

/-- The names of the files that a generation finishes, the last one first. -/
def finished (d : Declarations) (config : Config) (fs : FileSystem (StateM ω)) (root : Path)
    (w : ω) : List String :=
  ((((d.process config (OutputDirectory.filer fs).noting).run []).run (.new root)).run w).1.1.2

/-- Every file that a generation asks for is created, and its text is written. -/
def AllWritten (d : Declarations) (config : Config) (fs : FileSystem (StateM ω)) (root : Path)
    (w : ω) : Prop :=
  d.finished config fs root w = ((d.generate config fs root).run w).1.2.requested

instance (d : Declarations) (config : Config) (fs : FileSystem (StateM ω)) (root : Path) (w : ω) :
    Decidable (d.AllWritten config fs root w) :=
  inferInstanceAs (Decidable (_ = _))

variable (d : Declarations) (config : Config) (fs : FileSystem (StateM ω)) (root : Path) (w : ω)

theorem run_process_noting :
    (((d.process config (OutputDirectory.filer fs).noting).run []).run (.new root)).run w =
      let ((result, directory), w') := (d.generate config fs root).run w
      (((result, d.finished config fs root w), directory), w') := by
  have herase := congrArg (fun x => (x.run (.new root)).run w)
    (d.process_noting config (OutputDirectory.filer fs) [])
  rw [StateT.run_map, StateT.run_map] at herase
  unfold generate
  rw [← herase]
  rfl

variable {d config fs root w}

/-- **A generation that misses no file is mirrored by the check.** -/
theorem mirrors_generate (h : d.AllWritten config fs root w) :
    (d.check config).1 = ((d.generate config fs root).run w).1.1
      ∧ (d.check config).2.Mirrors (d.finished config fs root w)
        ((d.generate config fs root).run w).1.2 := by
  have hall : ((d.generate config fs root).run w).1.2.requested.length ≤
      (d.finished config fs root w).length := Nat.le_of_eq (congrArg List.length h).symm
  obtain ⟨-, hsame⟩ := (mirroring ω).process (mirroring_create fs) d config [] (.new root) w _ _ _ _
    (d.run_process_noting config fs root w)
  obtain ⟨files, hrun, hmirrors⟩ := hsame .empty (Memory.mirrors_new root) hall
  have hcheck : d.check config = (((d.generate config fs root).run w).1.1, files) := hrun
  rw [hcheck]
  exact ⟨rfl, hmirrors⟩

end Declarations

/-! ## File systems that refuse nothing -/

/-- Directories can be made, and files can be created and written, anywhere and at any time. -/
structure FileSystem.RefusesNothing (fs : FileSystem (StateM ω)) : Prop where
  makeDirectory : ∀ path w, ((fs.makeDirectory path).run w).1 = .ok ()
  /-- A file can be created, and any text can be put into it then. -/
  create : ∀ path text w, ∃ handle w',
    (fs.create path).run w = (.ok handle, w') ∧ ((fs.write handle text).run w').1 = .ok ()

/-- A file system that takes everything and keeps nothing. -/
def FileSystem.sink : FileSystem (StateM Unit) where
  read _ := pure (.error .missing)
  isPresent _ := pure (.ok false)
  makeDirectory _ := pure (.ok ())
  Handle := Unit
  create _ := pure (.ok ())
  write _ _ := pure (.ok ())

theorem FileSystem.refusesNothing_sink : sink.RefusesNothing where
  makeDirectory _ _ := rfl
  create _ _ _ := ⟨(), (), rfl, rfl⟩

namespace FileSystem.RefusesNothing

variable {fs : FileSystem (StateM ω)}

theorem makeFirst (h : fs.RefusesNothing) (paths : List Path) (w : ω) :
    ((fs.makeFirst paths).run w).1 = .ok () := by
  cases paths with
  | nil => rfl
  | cons path way =>
      unfold FileSystem.makeFirst
      rw [StateT.run_bind]
      have hmade := h.makeDirectory path w
      cases hrun : (fs.makeDirectory path).run w with
      | mk answer w' =>
          rw [hrun] at hmade
          cases hmade
          rfl

theorem makeDirectories (h : fs.RefusesNothing) (path : Path) (w : ω) :
    ((fs.makeDirectories path).run w).1 = .ok () :=
  h.makeFirst path.lineage w

theorem createFile (h : fs.RefusesNothing) (path : Path) (text : String) (w : ω) :
    ∃ handle w', (fs.createFile path).run w = (.ok handle, w')
      ∧ ((fs.write handle text).run w').1 = .ok () := by
  unfold FileSystem.createFile
  cases path.parent? with
  | none => exact h.create path text w
  | some directory =>
      rw [StateT.run_bind]
      have hmade := h.makeDirectories directory w
      cases hrun : (fs.makeDirectories directory).run w with
      | mk answer w' =>
          rw [hrun] at hmade
          cases hmade
          exact h.create path text w'

end FileSystem.RefusesNothing

/-- What leaves no file out, if none has been left out before. -/
def leavingNone (ω : Type) :
    Correspondence (StateT (List String) (StateT OutputDirectory (StateM ω)))
      (StateT (List String) (StateT OutputDirectory (StateM ω))) where
  Holds x _ := ∀ finished d w, finished = d.requested →
    (((x.run finished).run d).run w).1.1.2 = (((x.run finished).run d).run w).1.2.requested
  pure _ := by
    intro finished d w hd
    exact hd
  bind := by
    intro α β x _ f _ hx hf finished d w hd
    rw [StateT.run_bind, StateT.run_bind, StateT.run_bind]
    exact hf _ _ _ _ (hx finished d w hd)

/-- **If nothing is refused, then every file of the round is written.** -/
theorem Declarations.allWritten_generate {fs : FileSystem (StateM ω)} (h : fs.RefusesNothing)
    (d : Declarations) (config : Config) (root : Path) (w : ω) :
    d.AllWritten config fs root w := by
  have hfile (file : SourceFile) : (leavingNone ω).Holds
      ((OutputDirectory.filer fs).noting.create file)
      ((OutputDirectory.filer fs).noting.create file) := by
    rintro _ d w rfl
    rw [OutputDirectory.run_noting_create, OutputDirectory.run_filer_create]
    by_cases hname : file.name ∈ d.requested
    · rw [if_pos hname]
      rfl
    · rw [if_neg hname]
      obtain ⟨handle, w₁, hcreate, hwrite⟩ :=
        h.createFile (d.pathOf file.name) file.text w
      rw [hcreate]
      dsimp only
      cases hw : (fs.write handle file.text).run w₁ with
      | mk answer w₂ =>
          rw [hw] at hwrite
          cases hwrite
          rfl
  have hnone := (leavingNone ω).process hfile d config [] (.new root) w rfl
  rw [d.run_process_noting config fs root w] at hnone
  exact hnone

/-! ## The commands -/

namespace Command

/-- If there is something to generate, then the directory for it can be made, and every file that is
asked for is written. -/
def Unhindered (fs : FileSystem (StateM ω)) (input : Path) (out manifest : Option Path) (w : ω) :
    Prop :=
  match (load fs input manifest).run w with
  | (.error _, _) => True
  | (.ok (d, config), w) =>
    match (fs.makeDirectories (out.getD input.defaultOutput)).run w with
    | (.error _, _) => False
    | (.ok (), w) => d.AllWritten config fs (out.getD input.defaultOutput) w

instance (fs : FileSystem (StateM ω)) (input : Path) (out manifest : Option Path) (w : ω) :
    Decidable (Unhindered fs input out manifest w) := by
  unfold Unhindered
  split
  · exact .isTrue trivial
  · split
    · exact .isFalse id
    · infer_instance

theorem unhindered_of_refusesNothing {fs : FileSystem (StateM ω)} (h : fs.RefusesNothing)
    (input : Path) (out manifest : Option Path) (w : ω) : Unhindered fs input out manifest w := by
  unfold Unhindered
  split
  · trivial
  · rename_i d config w₁ hload
    have hmade := h.makeDirectories (out.getD input.defaultOutput) w₁
    split
    · rename_i fault w₂ hrun
      rw [hrun] at hmade
      cases hmade
    · exact Declarations.allWritten_generate h _ _ _ _

/-- What a round prints has no part in whether it succeeds, or in what it reports. -/
theorem ofRound_congr (output output' : String) (ds : List Diagnostic) :
    (Outcome.ofRound output ds).exitCode = (Outcome.ofRound output' ds).exitCode
      ∧ (Outcome.ofRound output ds).reports = (Outcome.ofRound output' ds).reports := by
  unfold Outcome.ofRound
  dsimp only
  split
  · exact ⟨rfl, rfl⟩
  · exact ⟨rfl, rfl⟩

section

variable {fs : FileSystem (StateM ω)} {input : Path} {out manifest : Option Path} {w w₁ : ω}

theorem runCheck_of_load {d : Declarations} {config : Config}
    (h : (load fs input manifest).run w = (.ok (d, config), w₁)) :
    ((runCheck fs input manifest).run w).1 =
      .ofRound ((d.check config).1.checkText d) (d.check config).1.diagnostics := by
  unfold runCheck
  rw [StateT.run_bind, h]
  rfl

theorem runGenerate_of_load {d : Declarations} {config : Config} {w₂ : ω}
    (h : (load fs input manifest).run w = (.ok (d, config), w₁))
    (hmade : (fs.makeDirectories (out.getD input.defaultOutput)).run w₁ = (.ok (), w₂)) :
    ((runGenerate fs input out manifest).run w).1 =
      let (result, directory) := ((d.generate config fs (out.getD input.defaultOutput)).run w₂).1
      .ofRound (result.generateText directory) result.diagnostics := by
  unfold runGenerate
  rw [StateT.run_bind, h]
  show ((fs.makeDirectories (out.getD input.defaultOutput) >>= _).run w₁).1 = _
  rw [StateT.run_bind, hmade]
  rfl

/-- **The two commands succeed or fail together, and report the same.** -/
theorem outcome_runGenerate (h : Unhindered fs input out manifest w) :
    ((runGenerate fs input out manifest).run w).1.exitCode =
        ((runCheck fs input manifest).run w).1.exitCode
      ∧ ((runGenerate fs input out manifest).run w).1.reports =
        ((runCheck fs input manifest).run w).1.reports := by
  cases hload : (load fs input manifest).run w with
  | mk loaded w₁ =>
      cases loaded with
      | error e =>
          unfold runGenerate runCheck
          rw [StateT.run_bind, StateT.run_bind, hload]
          exact ⟨rfl, rfl⟩
      | ok round =>
          obtain ⟨d, config⟩ := round
          unfold Unhindered at h
          rw [hload] at h
          dsimp only at h
          cases hmade : (fs.makeDirectories (out.getD input.defaultOutput)).run w₁ with
          | mk answer w₂ =>
              rw [hmade] at h
              cases answer with
              | error fault => exact h.elim
              | ok =>
                  rw [runGenerate_of_load hload hmade, runCheck_of_load hload,
                    (Declarations.mirrors_generate h).1]
                  exact ofRound_congr _ _ _

end

end Command

/--
**A check judges a round like a generation.**

Whatever the file system is, and whatever it holds: if all files that a round asks
for can be written, then the result is the same as that of the round in memory, with
the same reports in the same order. So if nothing hinders the command that
generates, it ends with the same exit code as the command that checks. Where nothing
is refused, both are always so.
-/
theorem check_alike (fs : FileSystem (StateM ω)) :
    (∀ (d : Declarations) (config : Config) (root : Path) (w : ω),
        d.AllWritten config fs root w →
        (d.check config).1 = ((d.generate config fs root).run w).1.1)
      ∧ (∀ (input : Path) (out manifest : Option Path) (w : ω),
        Command.Unhindered fs input out manifest w →
        ((Command.runGenerate fs input out manifest).run w).1.exitCode =
            ((Command.runCheck fs input manifest).run w).1.exitCode
          ∧ ((Command.runGenerate fs input out manifest).run w).1.reports =
            ((Command.runCheck fs input manifest).run w).1.reports)
      ∧ (fs.RefusesNothing →
        (∀ (d : Declarations) (config : Config) (root : Path) (w : ω),
          d.AllWritten config fs root w)
        ∧ ∀ (input : Path) (out manifest : Option Path) (w : ω),
          Command.Unhindered fs input out manifest w) :=
  ⟨fun _ _ _ _ h => (Declarations.mirrors_generate h).1,
    fun _ _ _ _ h => Command.outcome_runGenerate h,
    fun h => ⟨Declarations.allWritten_generate h, Command.unhindered_of_refusesNothing h⟩⟩

/-- A round with one trait, without members. -/
def loneBox : Declarations := ⟨[⟨"lib.Box", [], none, [], []⟩], []⟩

/-- Where nothing is refused the two rounds have the same result. In a file tree, with the trait in a
file, both commands succeed. -/
theorem check_alike_box :
    (loneBox.check .default).1 =
        ((loneBox.generate .default FileSystem.sink ⟨"out"⟩).run ()).1.1
      ∧ ∃ t,
        ((Command.runCheck FileTree.fileSystem ⟨"in.json"⟩ none).run t).1.exitCode = 0
        ∧ ((Command.runGenerate FileTree.fileSystem ⟨"in.json"⟩ none none).run t).1.exitCode = 0 := by
  obtain ⟨hround, -, hsink⟩ := check_alike FileSystem.sink
  obtain ⟨-, hcommand, -⟩ := check_alike FileTree.fileSystem
  have hwritten := (hsink FileSystem.refusesNothing_sink).1 loneBox .default ⟨"out"⟩ ()
  have hbox : ∃ t, ((Command.runCheck FileTree.fileSystem ⟨"in.json"⟩ none).run t).1.exitCode = 0
      ∧ Command.Unhindered FileTree.fileSystem ⟨"in.json"⟩ none none t :=
    ⟨.ofFiles [(⟨"in.json"⟩, "\x7b\"traits\": [\x7b\"name\": \"lib.Box\"\x7d]\x7d")],
      by decide +kernel⟩
  obtain ⟨t, hcheck, hunhindered⟩ := hbox
  exact ⟨hround _ _ _ _ hwritten, t, hcheck, (hcommand _ _ _ _ hunhindered).1.trans hcheck⟩

end TraitWeaver
