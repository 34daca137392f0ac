import TraitWeaver.Proofs.Filing
import TraitWeaver.Proofs.Outcome

/-!
# What a request comes to

A generator generates two files for a trait and one for a host, by two functions
that have one and the same course: they refuse what was served before, finish the
files, hand them in, and note the declaration down. A `Request` is either of the
two, and `answer_eq` says the course once for both.

Nothing else is proved by looking at the two functions. With a filer that keeps
its files, a request comes to one of four things (`Answered`), and whatever a
sequence of requests or a whole round does is put together from those.
-/

namespace TraitWeaver

/-- A trait or a host that files are to be generated for. -/
inductive Request where
  | trait (t : Trait)
  | host (h : Host)

namespace Request

/-- The qualified name of the declaration. -/
def origin : Request → String
  | trait t => t.qualifiedName
  | host h => h.qualifiedName

/-- The files that are generated, as plans. -/
def units (c : Config) : Request → List CompilationUnit
  | trait t => [t.interfaceFile c, t.delegateFile c]
  | host h => [h.superclassFile c]

/-- The names of the files. -/
def fileNames (c : Config) (r : Request) : List String := (r.units c).map (·.name.qualified)

/-- The declarations of the same sort that were served before, by their names. -/
def served (g : Generator) : Request → List String
  | trait _ => g.traitsDone
  | host _ => g.hostsDone

/-- The generator has served the request. -/
def noted (g : Generator) : Request → Generator
  | trait t => { g with traitsDone := t.qualifiedName :: g.traitsDone }
  | host h => { g with hostsDone := h.qualifiedName :: g.hostsDone }

/-- The plans, written out. -/
def finished (c : Config) (r : Request) : Except GenerationError (List SourceFile) :=
  (r.units c).mapM (Generator.finish · r.origin)

end Request

namespace Generator

section

variable {m : Type → Type} [Monad m]

/-- Serves a request. It is answered by the names of the generated files. -/
def answer (filer : Filer m) (g : Generator) :
    Request → m (Except GenerationError (List String) × Generator)
  | .trait t => do
    match ← g.generateTrait filer t with
    | .ok (files, g') => return (.ok [files.interface, files.delegate], g')
    | .error e => return (.error e, g)
  | .host h => do
    match ← g.generateHost filer h with
    | .ok (name, g') => return (.ok [name], g')
    | .error e => return (.error e, g)

/-- **The course of a request.** -/
theorem answer_eq [LawfulMonad m] (filer : Filer m) (g : Generator) (r : Request) :
    g.answer filer r =
      if r.origin ∈ r.served g then pure (.error (.alreadyGenerated r.origin), g)
      else
        match r.finished g.config with
        | .error e => pure (.error e, g)
        | .ok files => do
          match ← createAll filer files with
          | .ok () => return (.ok (files.map (·.name)), r.noted g)
          | .error e => return (.error e, g) := by
  cases r with
  | trait t =>
      unfold answer generateTrait Request.finished
      simp only [Request.units, Request.origin, Request.served, List.mapM_cons, List.mapM_nil]
      by_cases hserved : t.qualifiedName ∈ g.traitsDone
      · rw [if_pos hserved, if_pos hserved, pure_bind]
      · rw [if_neg hserved, if_neg hserved]
        cases hi : finish (t.interfaceFile g.config) t.qualifiedName with
        | error e => exact pure_bind _ _
        | ok interface =>
            cases hd : finish (t.delegateFile g.config) t.qualifiedName with
            | error e => exact pure_bind _ _
            | ok delegate =>
                show (createAll filer [interface, delegate] >>= _) >>= _ = _
                rw [bind_assoc]
                refine bind_congr fun outcome => ?_
                cases outcome with
                | error e => exact pure_bind _ _
                | ok u => exact pure_bind _ _
  | host h =>
      unfold answer generateHost Request.finished
      simp only [Request.units, Request.origin, Request.served, List.mapM_cons, List.mapM_nil]
      by_cases hserved : h.qualifiedName ∈ g.hostsDone
      · rw [if_pos hserved, if_pos hserved, pure_bind]
      · rw [if_neg hserved, if_neg hserved]
        cases hs : finish (h.superclassFile g.config) h.qualifiedName with
        | error e => exact pure_bind _ _
        | ok file =>
            show (createAll filer [file] >>= _) >>= _ = _
            rw [bind_assoc]
            refine bind_congr fun outcome => ?_
            cases outcome with
            | error e => exact pure_bind _ _
            | ok u => exact pure_bind _ _

end

end Generator

/-! ## Finished files -/

namespace Request

variable {c : Config} {r : Request} {files : List SourceFile}

/-- The files have the names of the plans, and the texts that the plans are rendered to. -/
def IsFinished (c : Config) (r : Request) (files : List SourceFile) : Prop :=
  List.Forall₂ (fun u f => f.name = u.name.qualified ∧ u.render = .ok f.text) (r.units c) files

theorem isFinished_of_finished (h : r.finished c = .ok files) : r.IsFinished c files := by
  refine (mapM_eq_ok_iff.mp h).imp fun u f hf => ?_
  unfold Generator.finish at hf
  split at hf
  · rename_i text hrender
    obtain rfl := Except.ok.inj hf
    exact ⟨rfl, hrender⟩
  · cases hf

theorem IsFinished.map_name (h : r.IsFinished c files) : files.map (·.name) = r.fileNames c := by
  unfold IsFinished at h
  unfold fileNames
  generalize r.units c = units at h
  induction h with
  | nil => rfl
  | cons hf _ ih => rw [List.map_cons, List.map_cons, hf.1, ih]

theorem exists_unwritable_of_finished {e : GenerationError} (h : r.finished c = .error e) :
    ∃ name cause, e = .unwritable name cause := by
  obtain ⟨u, -, hu⟩ := exists_of_mapM_eq_error h
  unfold Generator.finish at hu
  split at hu
  · cases hu
  · exact ⟨_, _, (Except.error.inj hu).symm⟩

end Request

/-! ## The outcome of a request -/

/-- What a request comes to, between two states of the place where files are kept. -/
inductive Answered {σ : Type} (read : σ → Contents) (g : Generator) (r : Request) (s s' : σ) :
    Except GenerationError (List String) → Generator → Prop where
  /-- The declaration was served before, and nothing happens. -/
  | repeated : r.origin ∈ r.served g → s' = s →
      Answered read g r s s' (.error (.alreadyGenerated r.origin)) g
  /-- A plan cannot be written, and nothing happens. -/
  | unwritable {name : String} {cause : WriterError} : r.origin ∉ r.served g → s' = s →
      Answered read g r s s' (.error (.unwritable name cause)) g
  /-- A file is refused, and those before it are there. -/
  | refused {before after : List SourceFile} {file : SourceFile} {fault : FileFault} :
      r.origin ∉ r.served g → r.IsFinished g.config (before ++ file :: after) →
      (read s).Created (read s') before →
      Answered read g r s s' (.error (.io file.name fault)) g
  /-- All files are there, and the declaration is noted down. -/
  | generated {files : List SourceFile} : r.origin ∉ r.served g →
      r.IsFinished g.config files → (read s).Created (read s') files →
      Answered read g r s s' (.ok (r.fileNames g.config)) (r.noted g)

variable {σ : Type} {filer : Filer (StateM σ)} {read : σ → Contents}

/-- **A request to a filer that keeps its files comes to one of four things.** -/
theorem Filer.Keeps.answered (hf : filer.Keeps read) {g g' : Generator} {r : Request} {s s' : σ}
    {answer : Except GenerationError (List String)}
    (h : (g.answer filer r).run s = ((answer, g'), s')) : Answered read g r s s' answer g' := by
  rw [Generator.answer_eq] at h
  by_cases hserved : r.origin ∈ r.served g
  · rw [if_pos hserved] at h
    cases h
    exact .repeated hserved rfl
  · rw [if_neg hserved] at h
    cases hfiles : r.finished g.config with
    | error e =>
        rw [hfiles] at h
        obtain ⟨name, cause, rfl⟩ := Request.exists_unwritable_of_finished hfiles
        cases h
        exact .unwritable hserved rfl
    | ok files =>
        have hfinished := Request.isFinished_of_finished hfiles
        rw [hfiles] at h
        dsimp only at h
        rw [StateT.run_bind] at h
        cases hcreate : (Generator.createAll filer files).run s with
        | mk outcome s'' =>
            rw [hcreate] at h
            rcases hf.createAll hcreate with
              ⟨rfl, hcreated⟩ | ⟨before, file, after, fault, rfl, rfl, hcreated⟩
            · cases h
              rw [hfinished.map_name]
              exact .generated hserved hfinished hcreated
            · cases h
              exact .refused hserved hfinished hcreated

variable {g g' : Generator} {r : Request} {s s' : σ} {answer : Except GenerationError (List String)}

theorem Answered.extends (h : Answered read g r s s' answer g') : (read s).Extends (read s') := by
  cases h with
  | repeated _ hs => exact hs ▸ Contents.Extends.refl _
  | unwritable _ hs => exact hs ▸ Contents.Extends.refl _
  | refused _ _ hcreated => exact hcreated.extends
  | generated _ _ hcreated => exact hcreated.extends

theorem Answered.config_eq (h : Answered read g r s s' answer g') : g'.config = g.config := by
  cases h with
  | repeated => rfl
  | unwritable => rfl
  | refused => rfl
  | generated => cases r <;> rfl

end TraitWeaver
