import TraitWeaver.Proofs.Requests
import TraitWeaver.Round

/-!
# The steps of a round

A round asks its generator for one declaration after the other, and writes down
what comes of it. This module says so: a trait is a request whose answer is noted,
and so is a host, unless it is turned down before anything is asked for.

What was written down before is never looked at again. So generation can be told
apart from the checks that it follows (`process_eq`): it is the same after any
checks that leave the same traits, and its result is put behind theirs.
-/

namespace TraitWeaver

/-- One result behind another. -/
def RoundResult.append (r r' : RoundResult) : RoundResult where
  generated := r.generated ++ r'.generated
  skippedTraits := r.skippedTraits + r'.skippedTraits
  skippedHosts := r.skippedHosts + r'.skippedHosts
  diagnostics := r.diagnostics ++ r'.diagnostics

namespace RoundResult

@[simp] theorem append_empty (r : RoundResult) : r.append .empty = r := by
  unfold append empty
  rw [List.append_nil, List.append_nil]
  rfl

@[simp] theorem append_report (r r' : RoundResult) (ds : List Diagnostic) :
    r.append (r'.report ds) = (r.append r').report ds := by
  unfold append report
  rw [List.append_assoc]

@[simp] theorem append_skipTrait (r r' : RoundResult) (d : Diagnostic) :
    r.append (r'.skipTrait d) = (r.append r').skipTrait d := by
  unfold skipTrait
  rw [← append_report]
  rfl

@[simp] theorem append_skipHost (r r' : RoundResult) (d : Diagnostic) :
    r.append (r'.skipHost d) = (r.append r').skipHost d := by
  unfold skipHost
  rw [← append_report]
  rfl

@[simp] theorem append_addGenerated (r r' : RoundResult) (names : List String) :
    r.append (r'.addGenerated names) = (r.append r').addGenerated names := by
  unfold append addGenerated
  rw [List.append_assoc]

end RoundResult

namespace Declarations

/-- The round after a request for a trait. -/
def Progress.noteTrait (p : Progress) (t : Trait) :
    Except GenerationError (List String) × Generator → Progress
  | (.ok names, generator) => { p with generator, result := p.result.addGenerated names }
  | (.error e, generator) =>
    { generator
      failed := t.qualifiedName :: p.failed
      result := p.result.skipTrait (.errorAt t.qualifiedName e.message) }

/-- The round after a request for a host. -/
def Progress.noteHost (p : Progress) (d : HostDecl) :
    Except GenerationError (List String) × Generator → Progress
  | (.ok names, generator) => { p with generator, result := p.result.addGenerated names }
  | (.error e, generator) =>
    { p with generator, result := p.result.skipHost (.errorAt d.name e.message) }

/-- The host that a superclass is asked for, unless the declaration is refused or files of one of
the traits are missing. -/
def accept (index : TraitIndex) (failed : List String) (d : HostDecl) : Except Diagnostic Host :=
  match (d.resolve index).1 with
  | .error e => .error (e.diagnostic d.name)
  | .ok host =>
    match host.traits.find? (·.qualifiedName ∈ failed) with
    | some missing => .error (.errorAt d.name
        (s!"superclass not generated: artifacts for trait '{missing.qualifiedName}' " ++
          "are missing"))
    | none => .ok host

theorem accept_eq_ok_iff {index : TraitIndex} {failed : List String} {d : HostDecl} {h : Host} :
    accept index failed d = .ok h ↔
      (d.resolve index).1 = .ok h ∧ ∀ t ∈ h.traits, t.qualifiedName ∉ failed := by
  unfold accept
  cases (d.resolve index).1 with
  | error e =>
      refine iff_of_false ?_ ?_
      · intro h
        cases h
      · intro hall
        cases hall.1
  | ok host =>
      dsimp only
      split
      · rename_i missing hfind
        refine iff_of_false ?_ ?_
        · intro h
          cases h
        · rintro ⟨he, hall⟩
          cases he
          have hfailed : missing.qualifiedName ∈ failed := by simpa using List.find?_some hfind
          exact hall missing (List.mem_of_find?_eq_some hfind) hfailed
      · rename_i hfind
        have hall : ∀ t ∈ host.traits, t.qualifiedName ∉ failed := by
          intro t ht hmem
          exact List.find?_eq_none.mp hfind t ht (decide_eq_true hmem)
        refine ⟨?_, ?_⟩
        · intro h
          cases h
          exact ⟨rfl, hall⟩
        · intro h
          cases h.1
          rfl

section

variable {m : Type → Type} [Monad m] [LawfulMonad m]

theorem generateTrait_eq (filer : Filer m) (p : Progress) (t : Trait) :
    generateTrait filer p t = p.noteTrait t <$> p.generator.answer filer (.trait t) := by
  unfold generateTrait Generator.answer
  rw [map_eq_pure_bind, bind_assoc]
  refine bind_congr fun outcome => ?_
  cases outcome with
  | error e =>
      dsimp only
      rw [pure_bind]
      rfl
  | ok outcome =>
      obtain ⟨files, g⟩ := outcome
      dsimp only
      rw [pure_bind]
      rfl

theorem generateHost_eq (filer : Filer m) (index : TraitIndex) (p : Progress) (d : HostDecl) :
    generateHost filer index p d =
      match accept index p.failed d with
      | .error fault => pure
        { p with result := (p.result.report (d.resolve index).2).skipHost fault }
      | .ok host =>
        { p with result := p.result.report (d.resolve index).2 }.noteHost d <$>
          p.generator.answer filer (.host host) := by
  unfold generateHost accept
  cases hr : d.resolve index with
  | mk host diagnostics =>
      cases host with
      | error e => rfl
      | ok host =>
          dsimp only
          cases host.traits.find? (·.qualifiedName ∈ p.failed) with
          | some missing => rfl
          | none =>
              unfold Generator.answer
              dsimp only
              rw [map_eq_pure_bind, bind_assoc]
              refine bind_congr fun outcome => ?_
              cases outcome with
              | error e =>
                  dsimp only
                  rw [pure_bind]
                  rfl
              | ok outcome =>
                  obtain ⟨name, g⟩ := outcome
                  dsimp only
                  rw [pure_bind]
                  rfl

/-! ## Generation after the checks -/

/-- What a round generates of the traits that it knows and of the declared hosts. -/
def generateAll (filer : Filer m) (config : Config) (index : TraitIndex) (hosts : List HostDecl) :
    m RoundResult := do
  let p ← index.traits.foldlM (generateTrait filer) ⟨.new config, [], .empty⟩
  let p ← hosts.foldlM (generateHost filer index) p
  return p.result

/-- The same round with another result before it. -/
def Progress.after (r : RoundResult) (p : Progress) : Progress :=
  { p with result := r.append p.result }

theorem foldlM_map {α β : Type} {f : β → α → m β} {g : β → β}
    (h : ∀ b x, f (g b) x = g <$> f b x) (xs : List α) (b : β) :
    xs.foldlM f (g b) = g <$> xs.foldlM f b := by
  induction xs generalizing b with
  | nil => exact (map_pure g b).symm
  | cons x xs ih =>
      rw [List.foldlM_cons, List.foldlM_cons, h, map_bind, bind_map_left]
      exact bind_congr fun b' => ih b'

theorem generateTrait_after (filer : Filer m) (r : RoundResult) (p : Progress) (t : Trait) :
    generateTrait filer (p.after r) t = Progress.after r <$> generateTrait filer p t := by
  rw [generateTrait_eq, generateTrait_eq, Functor.map_map]
  have hnote : ∀ answer, (p.after r).noteTrait t answer = (p.noteTrait t answer).after r := by
    rintro ⟨e | names, g⟩
    · simp [Progress.after, Progress.noteTrait]
    · simp [Progress.after, Progress.noteTrait]
  exact congrArg (· <$> p.generator.answer filer (.trait t)) (funext hnote)

theorem generateHost_after (filer : Filer m) (index : TraitIndex) (r : RoundResult) (p : Progress)
    (d : HostDecl) :
    generateHost filer index (p.after r) d = Progress.after r <$> generateHost filer index p d := by
  rw [generateHost_eq, generateHost_eq]
  cases ha : accept index p.failed d with
  | error fault =>
      rw [show accept index (p.after r).failed d = _ from ha, map_pure]
      simp [Progress.after]
  | ok host =>
      rw [show accept index (p.after r).failed d = _ from ha]
      dsimp only
      rw [Functor.map_map]
      refine congrArg (· <$> p.generator.answer filer (.host host)) (funext ?_)
      rintro ⟨e | names, g⟩
      · simp [Progress.after, Progress.noteHost]
      · simp [Progress.after, Progress.noteHost]

/-- **A round checks its traits, and then generates whatever is left of them.** -/
theorem process_eq (d : Declarations) (config : Config) (filer : Filer m) :
    d.process config filer =
      (d.checkTraits config).2.append <$>
        generateAll filer config (d.checkTraits config).1 d.hosts := by
  unfold process generateAll
  obtain ⟨index, result⟩ := d.checkTraits config
  dsimp only
  have hstart : (⟨.new config, [], result⟩ : Progress) =
      Progress.after result ⟨.new config, [], .empty⟩ := by
    simp [Progress.after]
  rw [hstart, foldlM_map (generateTrait_after filer result), bind_map_left, map_bind]
  refine bind_congr fun p => ?_
  rw [foldlM_map (generateHost_after filer index result), bind_map_left, map_bind]
  exact bind_congr fun p => (map_pure result.append p.result).symm

end

/-! ## Runs -/

/-- A property of what is done so far, of the value and of the state, that every step of a loop
keeps. -/
theorem foldlM_induction {σ α β : Type} {f : β → α → StateM σ β} {xs : List α}
    (motive : List α → β → σ → Prop)
    (step : ∀ done x b s b' s', done ++ [x] <+: xs → motive done b s →
      (f b x).run s = (b', s') → motive (done ++ [x]) b' s')
    {b b' : β} {s s' : σ} (h : (xs.foldlM f b).run s = (b', s')) (init : motive [] b s) :
    motive xs b' s' := by
  have hgeneral : ∀ rest done, done ++ rest = xs → ∀ b s,
      (rest.foldlM f b).run s = (b', s') → motive done b s → motive xs b' s' := by
    intro rest
    induction rest with
    | nil =>
        intro done hdone b s h hmotive
        rw [List.append_nil] at hdone
        cases h
        exact hdone ▸ hmotive
    | cons x rest ih =>
        intro done hdone b s h hmotive
        rw [List.foldlM_cons, StateT.run_bind] at h
        have hnext : (done ++ [x]) ++ rest = xs := by
          rw [List.append_assoc]
          exact hdone
        cases hstep : (f b x).run s with
        | mk b₁ s₁ =>
            rw [hstep] at h
            exact ih (done ++ [x]) hnext b₁ s₁ h
              (step done x b s b₁ s₁ ⟨rest, hnext⟩ hmotive hstep)
  exact hgeneral xs [] rfl b s h init

/-- A round over some state: the traits are generated first, and then the hosts from where that
ended. -/
theorem run_process {σ : Type} (d : Declarations) (config : Config) (filer : Filer (StateM σ))
    (s : σ) :
    (d.process config filer).run s =
      let before := ((d.checkTraits config).1.traits.foldlM (generateTrait filer)
        ⟨.new config, [], .empty⟩).run s
      let after := (d.hosts.foldlM (generateHost filer (d.checkTraits config).1) before.1).run
        before.2
      ((d.checkTraits config).2.append after.1.result, after.2) := by
  rw [process_eq]
  rfl

end Declarations

end TraitWeaver
