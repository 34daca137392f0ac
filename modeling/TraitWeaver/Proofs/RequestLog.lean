import TraitWeaver.Proofs.Requests

/-!
# A generator at work

A generator is asked again and again, for traits and hosts in any order and also
for the same ones, while the filer takes at one time what it refuses at another.
`serve` is that whole history, as the list of what happened at each request.

Two invariants run through it, and they need each other only where a request is
repeated:

* **files stay**: whatever was there at some time is there later, unchanged, and
  what a request says it generated is just what it added;
* **declarations are served once**: the generator knows exactly the declarations
  that it has generated files for (`exists_answered_of_serve`), so a request is
  turned down as a repetition exactly if it is one.
-/

namespace TraitWeaver

/-- Both requests are for traits, or both for hosts, of one qualified name. -/
def Request.Same : Request → Request → Prop
  | .trait t, .trait u => t.qualifiedName = u.qualifiedName
  | .host h, .host k => h.qualifiedName = k.qualifiedName
  | _, _ => False

/-- A request as it was served: the answer to it, and the files before and after. -/
structure Exchange where
  request : Request
  answer : Except GenerationError (List String)
  before : Memory
  after : Memory

/-- Files were generated for a declaration. -/
def Exchange.Settles (e : Exchange) (r : Request) : Prop :=
  e.request.Same r ∧ ∃ names, e.answer = .ok names

/-- Serves requests one after the other. For each of them it is known which names are refused at
that time. -/
def Generator.serve (g : Generator) (files : Memory) :
    List ((String → Option FileFault) × Request) → List Exchange
  | [] => []
  | (refused, r) :: rest =>
    let ((answer, g'), files') := (g.answer (Memory.filer refused) r).run files
    ⟨r, answer, files, files'⟩ :: g'.serve files' rest

/-! ## One request -/

namespace Answered

variable {σ : Type} {read : σ → Contents} {g g' : Generator} {r : Request} {s s' : σ}
  {answer : Except GenerationError (List String)}

/-- Afterwards the generator also knows the declaration, if there are files for it. -/
theorem origin_mem_served_iff (h : Answered read g r s s' answer g') (r' : Request) :
    r'.origin ∈ r'.served g' ↔
      (r.Same r' ∧ ∃ names, answer = .ok names) ∨ r'.origin ∈ r'.served g := by
  have hfailed : ∀ e : GenerationError, ¬∃ names : List String, .error e = Except.ok names := by
    rintro e ⟨names, he⟩
    cases he
  cases h with
  | repeated => exact (or_iff_right fun h => hfailed _ h.2).symm
  | unwritable => exact (or_iff_right fun h => hfailed _ h.2).symm
  | refused => exact (or_iff_right fun h => hfailed _ h.2).symm
  | generated =>
      rw [and_iff_left ⟨_, rfl⟩]
      -- a declaration is noted down among those of its sort
      cases r <;> cases r'
      case trait.trait t u => exact List.mem_cons.trans (or_congr_left eq_comm)
      case trait.host => exact (or_iff_right id).symm
      case host.trait => exact (or_iff_right id).symm
      case host.host h k => exact List.mem_cons.trans (or_congr_left eq_comm)

/-- **A request is turned down as a repetition exactly if the generator knows the declaration.** -/
theorem repeated_iff (h : Answered read g r s s' answer g') :
    (∃ name, answer = .error (.alreadyGenerated name)) ↔ r.origin ∈ r.served g := by
  cases h with
  | repeated hserved => exact iff_of_true ⟨_, rfl⟩ hserved
  | unwritable hserved => exact iff_of_false (by rintro ⟨name, he⟩; cases he) hserved
  | refused hserved => exact iff_of_false (by rintro ⟨name, he⟩; cases he) hserved
  | generated hserved => exact iff_of_false (by rintro ⟨name, he⟩; cases he) hserved

/-- A repetition has no effect. -/
theorem of_served (h : Answered read g r s s' answer g') (hserved : r.origin ∈ r.served g) :
    answer = .error (.alreadyGenerated r.origin) ∧ s' = s := by
  cases h with
  | repeated _ hs => exact ⟨rfl, hs⟩
  | unwritable hnot => exact absurd hserved hnot
  | refused hnot => exact absurd hserved hnot
  | generated hnot => exact absurd hserved hnot

/-- Files that are answered with were all created, and nothing else was. -/
theorem of_ok {names : List String} (h : Answered read g r s s' (.ok names) g') :
    ∃ files, r.IsFinished g.config files ∧ names = files.map (·.name)
      ∧ (read s).Created (read s') files := by
  cases h with
  | generated _ hfinished hcreated => exact ⟨_, hfinished, hfinished.map_name.symm, hcreated⟩

end Answered

/-! ## The history of a generator -/

/-- What is true of the history of a generator that has some options, starts with some files and
gets some requests. -/
structure SoundLog (config : Config) (files : Memory) (requests : List Request)
    (log : List Exchange) : Prop where
  /-- Every request is served, in its turn. -/
  complete : log.map (·.request) = requests
  /-- Each request meets the files that the one before it left. -/
  joined : log.map (·.before) = (files :: log.map (·.after)).dropLast
  /-- A file that is there stays there with its text. -/
  kept : (files :: log.map (·.after)).Pairwise fun m m' => Contents.Extends m.get? m'.get?
  /-- A request that is answered with names has created the files of these names and nothing else,
  each with the whole text that its plan is rendered to. -/
  generated : ∀ e ∈ log, ∀ names, e.answer = .ok names →
    ∃ new, e.request.IsFinished config new ∧ names = new.map (·.name)
      ∧ Contents.Created e.before.get? e.after.get? new
  /-- Once a declaration has its files, every request for it is turned down and changes nothing. -/
  once : ∀ earlier e later, log = earlier ++ e :: later → (∃ e₀ ∈ earlier, e₀.Settles e.request) →
    e.answer = .error (.alreadyGenerated e.request.origin) ∧ e.after = e.before
  /-- No other request is turned down for that reason. -/
  only : ∀ earlier e later, log = earlier ++ e :: later →
    (∃ name, e.answer = .error (.alreadyGenerated name)) → ∃ e₀ ∈ earlier, e₀.Settles e.request

namespace Generator

variable {g : Generator} {files : Memory}
  {requests : List ((String → Option FileFault) × Request)}

theorem serve_cons (g : Generator) (files : Memory) (refused : String → Option FileFault)
    (r : Request) (requests : List ((String → Option FileFault) × Request)) :
    ∃ answer g' files', Answered SortedMap.get? g r files files' answer g'
      ∧ g.serve files ((refused, r) :: requests) =
        ⟨r, answer, files, files'⟩ :: g'.serve files' requests := by
  cases hrun : (g.answer (Memory.filer refused) r).run files with
  | mk outcome files' =>
      obtain ⟨answer, g'⟩ := outcome
      refine ⟨answer, g', files', Memory.keeps_filer.answered hrun, ?_⟩
      rw [serve, hrun]

/-- At any time the generator knows the declarations that it knew in the beginning, and those that
it has generated files for since. -/
theorem exists_answered_of_serve {earlier later : List Exchange} {e : Exchange}
    (h : g.serve files requests = earlier ++ e :: later) :
    ∃ g₁ g₂, Answered SortedMap.get? g₁ e.request e.before e.after e.answer g₂
      ∧ g₁.config = g.config
      ∧ (e.request.origin ∈ e.request.served g₁ ↔
          (∃ e₀ ∈ earlier, e₀.Settles e.request) ∨ e.request.origin ∈ e.request.served g) := by
  induction requests generalizing g files earlier with
  | nil => exact absurd h.symm (List.append_ne_nil_of_right_ne_nil _ (List.cons_ne_nil _ _))
  | cons request requests ih =>
      obtain ⟨answer, g', files', hanswered, hserve⟩ :=
        serve_cons g files request.1 request.2 requests
      rw [hserve] at h
      cases earlier with
      | nil =>
          obtain ⟨rfl, -⟩ := List.cons.inj h
          refine ⟨g, g', hanswered, rfl, (or_iff_right ?_).symm⟩
          rintro ⟨e₀, he₀, -⟩
          exact absurd he₀ List.not_mem_nil
      | cons first earlier =>
          obtain ⟨rfl, hrest⟩ := List.cons.inj h
          obtain ⟨g₁, g₂, hlater, hconfig, hserved⟩ := ih hrest
          refine ⟨g₁, g₂, hlater, hconfig.trans hanswered.config_eq, ?_⟩
          rw [hserved, hanswered.origin_mem_served_iff, List.exists_mem_cons_iff, ← or_assoc,
            or_comm (a := ∃ e₀ ∈ earlier, _)]
          rfl

theorem complete_serve : (g.serve files requests).map (·.request) = requests.map (·.2) := by
  induction requests generalizing g files with
  | nil => rfl
  | cons request requests ih =>
      obtain ⟨answer, g', files', -, hserve⟩ := serve_cons g files request.1 request.2 requests
      rw [hserve, List.map_cons, List.map_cons, ih]

theorem joined_serve : (g.serve files requests).map (·.before) =
    (files :: (g.serve files requests).map (·.after)).dropLast := by
  induction requests generalizing g files with
  | nil => rfl
  | cons request requests ih =>
      obtain ⟨answer, g', files', -, hserve⟩ := serve_cons g files request.1 request.2 requests
      rw [hserve, List.map_cons, List.map_cons, List.dropLast_cons_cons, ih]

theorem kept_serve : (files :: (g.serve files requests).map (·.after)).Pairwise fun m m' =>
    Contents.Extends m.get? m'.get? := by
  induction requests generalizing g files with
  | nil => exact List.pairwise_singleton _ _
  | cons request requests ih =>
      obtain ⟨answer, g', files', hanswered, hserve⟩ :=
        serve_cons g files request.1 request.2 requests
      rw [hserve, List.map_cons]
      -- all that comes later extends what is there after the first request
      have hrest : (files' :: (g'.serve files' requests).map (·.after)).Pairwise fun m m' =>
          Contents.Extends m.get? m'.get? := ih
      refine List.pairwise_cons.mpr ⟨?_, hrest⟩
      intro m hm
      rcases List.mem_cons.mp hm with rfl | hm
      · exact hanswered.extends
      · exact hanswered.extends.trans ((List.pairwise_cons.mp hrest).1 m hm)

/--
**A generator generates each declaration once and never touches a file again.**

Whatever it is asked for, in whatever order and however often, and whatever the
filer refuses at each time.
-/
theorem soundLog_serve (config : Config) (files : Memory)
    (requests : List ((String → Option FileFault) × Request)) :
    SoundLog config files (requests.map (·.2)) ((new config).serve files requests) := by
  have hfresh : ∀ r : Request, r.origin ∉ r.served (new config) := by
    intro r
    cases r with
    | trait => exact List.not_mem_nil
    | host => exact List.not_mem_nil
  refine ⟨complete_serve, joined_serve, kept_serve, ?_, ?_, ?_⟩
  · intro e he names hnames
    obtain ⟨earlier, later, hsplit⟩ := List.append_of_mem he
    obtain ⟨g₁, g₂, hanswered, hconfig, -⟩ := exists_answered_of_serve hsplit
    rw [hnames] at hanswered
    obtain ⟨new, hfinished, rfl, hcreated⟩ := hanswered.of_ok
    rw [hconfig] at hfinished
    exact ⟨new, hfinished, rfl, hcreated⟩
  · intro earlier e later hsplit hsettled
    obtain ⟨g₁, g₂, hanswered, -, hserved⟩ := exists_answered_of_serve hsplit
    exact hanswered.of_served (hserved.mpr (Or.inl hsettled))
  · intro earlier e later hsplit hrepeated
    obtain ⟨g₁, g₂, hanswered, -, hserved⟩ := exists_answered_of_serve hsplit
    exact (hserved.mp (hanswered.repeated_iff.mp hrepeated)).resolve_right (hfresh _)

end Generator

end TraitWeaver
