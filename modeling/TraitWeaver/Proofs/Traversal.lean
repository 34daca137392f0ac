import TraitWeaver.Proofs.Postorder

/-!
# What a rewriting calls, and when

All that is done to type parameters is done by one walk, and the function that it calls
may keep a state and may fail. What matters about the walk is then not only what comes
out: a call too many, or in another order, would show in the state, and one after a
failure would undo what the failure was for.

So the calls are taken down (`recording`), and what is said is said of them. The calls
are for the occurrences in postorder, and each is offered what the calls before it have
made of the bounds (`Occurrence.offered`). Which of the answers count for that is a
question of places: `replaceAt` puts an answer at each of them, and knows nothing of
calls. Computations are put together by the one lemma `Walks.bind`.
-/

namespace TraitWeaver.TypeRef

/-! ## Answers at places -/

/-- What is put at each place, if anything is. -/
abbrev Answers : Type := List Step → Option TypeRef

/-- The answers for what is one step further in. -/
def Answers.behind (answers : Answers) (step : Step) : Answers := fun path => answers (step :: path)

mutual

/-- The reference with answers put at the places of parameters. What is put somewhere is not looked
at any more, and the bounds of the parameter that was there are gone. -/
def replaceAt : TypeRef → Answers → TypeRef
  | .declared name args dims, answers =>
    .declared name (replaceAllAt args fun i => answers.behind (.arg i)) dims
  | .param var upper lower dims, answers =>
    match answers [] with
    | some replacement => replacement.under dims
    | none =>
      .param var (replaceAllAt upper fun i => answers.behind (.upper i))
        (replaceOptionAt lower (answers.behind .lower)) dims

/-- Several references, each with its own answers. -/
def replaceAllAt : List TypeRef → (Nat → Answers) → List TypeRef
  | [], _ => []
  | t :: ts, answers => replaceAt t (answers 0) :: replaceAllAt ts fun i => answers (i + 1)

def replaceOptionAt : Option TypeRef → Answers → Option TypeRef
  | none, _ => none
  | some t, answers => some (replaceAt t answers)

end

/-- The answers for what is inside of a declared type, by those for its arguments. -/
def Answers.ofArgs (args : Nat → Answers) : Answers
  | .arg i :: path => args i path
  | _ => none

/-- The answers for a parameter and what is inside of it. -/
def Answers.ofParam (own : Option TypeRef) (upper : Nat → Answers) (lower : Answers) : Answers
  | [] => own
  | .upper i :: path => upper i path
  | .lower :: path => lower path
  | .arg _ :: _ => none

/-- The answers for what is inside of a place. -/
def Answers.within (answers : Answers) (place : List Step) : Answers
  | [] => none
  | step :: path => answers (place ++ step :: path)

/-- The parameter of the occurrence, after its bounds have been rewritten. -/
def Occurrence.offered (o : Occurrence) (answers : Answers) : TypeParam :=
  { var := o.param.var
    upper := replaceAllAt o.param.upper fun i path => answers (o.place ++ .upper i :: path)
    lower := replaceOptionAt o.param.lower fun path => answers (o.place ++ .lower :: path) }

/-! ## Calls -/

/-- A call of the function that a rewriting is made with. -/
structure Call (ε : Type) where
  offered : TypeParam
  answer : Except ε (Option TypeRef)

/-- The call for an occurrence, if it does not fail. -/
def Call.of {ε : Type} (answers : Answers) (o : Occurrence) : Call ε :=
  ⟨o.offered answers, .ok (answers o.place)⟩

/-- The call is for the occurrence: its bounds are rewritten by then, and what is put at its place is
the answer. -/
structure Call.For {ε : Type} (answers : Answers) (o : Occurrence) (call : Call ε) : Prop where
  offered : call.offered = o.offered answers
  answered : ∀ a, call.answer = .ok a → answers o.place = a

/-- A function to rewrite with. It may change a state, and it may fail. -/
abbrev Rewriter (ε σ : Type) : Type := TypeParam → ExceptT ε (StateM σ) (Option TypeRef)

section

variable {ε σ α β : Type}

/-- What a computation comes to from a state, and the state that it leaves behind. -/
def runFrom (x : ExceptT ε (StateM σ) α) (s : σ) : Except ε α × σ := (x.run.run s).run

theorem runFrom_pure (a : α) (s : σ) :
    runFrom (pure a : ExceptT ε (StateM σ) α) s = (.ok a, s) := rfl

theorem runFrom_bind (x : ExceptT ε (StateM σ) α) (k : α → ExceptT ε (StateM σ) β) (s : σ) :
    runFrom (x >>= k) s =
      match runFrom x s with
      | (.ok a, s') => runFrom (k a) s'
      | (.error e, s') => (.error e, s') := by
  simp only [runFrom, ExceptT.run_bind, StateT.run_bind, Id.run_bind]
  rcases (x.run.run s).run with ⟨_ | _, s'⟩
  · rfl
  · rfl

/-- The function, which in addition takes down its calls. -/
def recording (f : Rewriter ε σ) : Rewriter ε (σ × List (Call ε)) := fun p =>
  ExceptT.mk fun (s, calls) =>
    let (answer, s') := runFrom (f p) s
    pure (answer, s', calls ++ [⟨p, answer⟩])

theorem runFrom_recording (f : Rewriter ε σ) (p : TypeParam) (s : σ) (log : List (Call ε)) :
    runFrom (recording f p) (s, log) =
      ((runFrom (f p) s).1, (runFrom (f p) s).2, log ++ [⟨p, (runFrom (f p) s).1⟩]) := rfl

/-- The calls are made one after the other, each from the state that the one before has left. -/
inductive Made (f : Rewriter ε σ) : σ → List (Call ε) → σ → Prop where
  | nil (s : σ) : Made f s [] s
  | cons {s s' : σ} (p : TypeParam) {calls : List (Call ε)} :
      Made f (runFrom (f p) s).2 calls s' →
      Made f s (⟨p, (runFrom (f p) s).1⟩ :: calls) s'

theorem Made.append {f : Rewriter ε σ} {s s' s'' : σ} {calls calls' : List (Call ε)}
    (h : Made f s calls s') (h' : Made f s' calls' s'') : Made f s (calls ++ calls') s'' := by
  induction h with
  | nil s => exact h'
  | cons p _ ih => exact .cons p (ih h')

theorem Made.exists_answer_eq {f : Rewriter ε σ} {s s' : σ} {calls : List (Call ε)}
    (h : Made f s calls s') {call : Call ε} (hcall : call ∈ calls) :
    ∃ s₀, call.answer = (runFrom (f call.offered) s₀).1 := by
  induction h with
  | nil => cases hcall
  | @cons s _ p _ _ ih =>
      rcases List.mem_cons.mp hcall with rfl | hcall
      · exact ⟨s, rfl⟩
      · exact ih hcall

/-! ## Walks -/

/-- The calls are for these occurrences, one for each. If none fails, this value is the result; if
one does, it is the last, and its error is the result. -/
inductive Traversed (os : List Occurrence) (answers : Answers) (value : α) :
    List (Call ε) → Except ε α → Prop where
  | done : Traversed os answers value (os.map (Call.of answers)) (.ok value)
  | stopped {before after : List Occurrence} {o : Occurrence} {e : ε} :
      os = before ++ o :: after →
      Traversed os answers value (before.map (Call.of answers) ++ [⟨o.offered answers, .error e⟩])
        (.error e)

/-- From a state, the first computation comes to the result of a traversal, and the second one to the
same, with the calls taken down. -/
def Walks (f : Rewriter ε σ) (x : ExceptT ε (StateM σ) α)
    (x' : ExceptT ε (StateM (σ × List (Call ε))) α) (s : σ) (os : List Occurrence)
    (answers : Answers) (value : α) : Prop :=
  ∃ calls result s', runFrom x s = (result, s')
    ∧ (∀ log, runFrom x' (s, log) = (result, s', log ++ calls))
    ∧ Made f s calls s' ∧ Traversed os answers value calls result

variable {f : Rewriter ε σ} {s : σ} {answers : Answers}

theorem Walks.pure (a : α) : Walks f (pure a) (pure a) s [] answers a :=
  ⟨[], .ok a, s, rfl, fun log => by rw [List.append_nil]; rfl, .nil s, .done⟩

/-- A call is a traversal of the occurrence that it is for. -/
theorem Walks.call (f : Rewriter ε σ) (s : σ) (o : Occurrence) (answers : Answers)
    (h : ∀ a, (runFrom (f (o.offered answers)) s).1 = .ok a → answers o.place = a) :
    Walks f (f (o.offered answers)) (recording f (o.offered answers)) s [o] answers
      (answers o.place) := by
  have hmade : Made f s [⟨o.offered answers, (runFrom (f (o.offered answers)) s).1⟩]
      (runFrom (f (o.offered answers)) s).2 := .cons _ (.nil _)
  refine ⟨_, (runFrom (f (o.offered answers)) s).1, _, rfl, runFrom_recording f _ s, hmade, ?_⟩
  cases hr : (runFrom (f (o.offered answers)) s).1 with
  | error e =>
      have hos : [o] = [] ++ o :: [] := rfl
      exact .stopped hos
  | ok a =>
      rw [← h a hr]
      exact .done

/-- **One computation after the other**: the occurrences come one after the other, too. The second
one starts from the state that the first one leaves, and not at all if the first one fails. -/
theorem Walks.bind {x : ExceptT ε (StateM σ) α} {x' : ExceptT ε (StateM (σ × List (Call ε))) α}
    {k : α → ExceptT ε (StateM σ) β} {k' : α → ExceptT ε (StateM (σ × List (Call ε))) β}
    {os os' : List Occurrence} {a : α} {b : β} (hx : Walks f x x' s os answers a)
    (hk : Walks f (k a) (k' a) (runFrom x s).2 os' answers b) :
    Walks f (x >>= k) (x' >>= k') s (os ++ os') answers b := by
  obtain ⟨calls, result, s₁, hrun, hrun', hmade, htraversed⟩ := hx
  rw [hrun] at hk
  cases htraversed with
  | done =>
      obtain ⟨calls₂, result₂, s₂, hrun₂, hrun₂', hmade₂, htraversed₂⟩ := hk
      refine ⟨_, result₂, s₂, ?_, fun log => ?_, hmade.append hmade₂, ?_⟩
      · rw [runFrom_bind, hrun]
        exact hrun₂
      · rw [runFrom_bind, hrun', ← List.append_assoc]
        exact hrun₂' _
      · cases htraversed₂ with
        | done =>
            rw [← List.map_append]
            exact .done
        | @stopped before after o e hos =>
            rw [← List.append_assoc, ← List.map_append]
            exact .stopped (by rw [hos, List.append_assoc])
  | @stopped before after o e hos =>
      refine ⟨_, .error e, s₁, ?_, fun log => ?_, hmade, ?_⟩
      · rw [runFrom_bind, hrun]
      · rw [runFrom_bind, hrun']
      · exact .stopped (by rw [hos, List.append_assoc, List.cons_append])

theorem map_of_behind (answers : Answers) (step : Step) (os : List Occurrence) :
    (os.map (Occurrence.behind step)).map (Call.of answers) =
      (os.map (Call.of (answers.behind step)) : List (Call ε)) := List.map_map

/-- What is a traversal one step further in is one from here. -/
theorem Walks.behind {x : ExceptT ε (StateM σ) α} {x' : ExceptT ε (StateM (σ × List (Call ε))) α}
    {os : List Occurrence} {a : α} {step : Step} (h : Walks f x x' s os (answers.behind step) a) :
    Walks f x x' s (os.map (Occurrence.behind step)) answers a := by
  obtain ⟨calls, result, s', hrun, hrun', hmade, htraversed⟩ := h
  refine ⟨calls, result, s', hrun, hrun', hmade, ?_⟩
  cases htraversed with
  | done =>
      rw [← map_of_behind]
      exact .done
  | @stopped before after o e hos =>
      rw [← map_of_behind]
      exact .stopped (o := o.behind step) (by rw [hos, List.map_append, List.map_cons])

end

/-! ## Rewriting is a walk -/

variable {ε σ : Type}

/-- Several references are walked one after the other, whatever the steps to them are. -/
theorem exists_walks_rewriteListM (f : Rewriter ε σ) {ts : List TypeRef}
    (h : ∀ t ∈ ts, ∀ s, ∃ answers, Walks f (rewriteM f t) (rewriteM (recording f) t) s
      t.occurrences answers (t.replaceAt answers)) (s : σ) :
    ∃ inner : Nat → Answers, ∀ (step : Nat → Step) (answers : Answers),
      (∀ i, answers.behind (step i) = inner i) →
      Walks f (rewriteListM f ts) (rewriteListM (recording f) ts) s (occurrencesOfList step ts)
        answers (replaceAllAt ts fun i => answers.behind (step i)) := by
  induction ts generalizing s with
  | nil => exact ⟨fun _ _ => none, fun _ _ _ => .pure []⟩
  | cons t ts ih =>
      obtain ⟨ht, hts⟩ := List.forall_mem_cons.mp h
      obtain ⟨first, hfirst⟩ := ht s
      obtain ⟨others, hothers⟩ := ih hts (runFrom (rewriteM f t) s).2
      refine ⟨fun i => i.casesOn first others, fun step answers hinner => ?_⟩
      have hinner₀ : answers.behind (step 0) = first := hinner 0
      rw [← hinner₀] at hfirst
      have hrest := hothers (fun i => step (i + 1)) answers fun i => hinner (i + 1)
      rw [rewriteListM, rewriteListM, occurrencesOfList, replaceAllAt]
      refine hfirst.behind.bind ?_
      rw [← List.append_nil (occurrencesOfList _ ts)]
      exact hrest.bind (.pure _)

theorem exists_walks_rewriteOptionM (f : Rewriter ε σ) {lower : Option TypeRef}
    (h : ∀ t, lower = some t → ∀ s, ∃ answers, Walks f (rewriteM f t) (rewriteM (recording f) t) s
      t.occurrences answers (t.replaceAt answers)) (s : σ) :
    ∃ inner : Answers, ∀ answers : Answers, answers.behind .lower = inner →
      Walks f (rewriteOptionM f lower) (rewriteOptionM (recording f) lower) s
        (occurrencesOfOption lower) answers (replaceOptionAt lower (answers.behind .lower)) := by
  cases lower with
  | none => exact ⟨fun _ => none, fun _ _ => .pure none⟩
  | some t =>
      obtain ⟨inner, hinner⟩ := h t rfl s
      refine ⟨inner, fun answers he => ?_⟩
      rw [← he] at hinner
      rw [rewriteOptionM, rewriteOptionM, occurrencesOfOption, replaceOptionAt,
        ← List.append_nil (t.occurrences.map _)]
      exact hinner.behind.bind (.pure _)

/-- **Rewriting a reference walks its occurrences** in postorder, and comes to the reference with the
answers at their places. -/
theorem exists_walks_rewriteM (f : Rewriter ε σ) (t : TypeRef) (s : σ) :
    ∃ answers, Walks f (rewriteM f t) (rewriteM (recording f) t) s t.occurrences answers
      (t.replaceAt answers) := by
  induction t generalizing s with
  | declared name args dims ih =>
      obtain ⟨inner, hinner⟩ := exists_walks_rewriteListM f ih s
      have hargs := hinner .arg (.ofArgs inner) fun _ => rfl
      refine ⟨.ofArgs inner, ?_⟩
      rw [rewriteM, rewriteM, occurrences, replaceAt, ← List.append_nil (occurrencesOfList _ args)]
      exact hargs.bind (.pure _)
  | param var upper lower dims ihu ihl =>
      obtain ⟨us, hus⟩ := exists_walks_rewriteListM f ihu s
      obtain ⟨l, hl⟩ := exists_walks_rewriteOptionM f ihl (runFrom (rewriteListM f upper) s).2
      -- the parameter is offered with its bounds rewritten, and its answer is for its own place
      let s' := (runFrom (rewriteOptionM f lower) (runFrom (rewriteListM f upper) s).2).2
      let offered : TypeParam := ⟨var, replaceAllAt upper us, replaceOptionAt lower l⟩
      let own : Option TypeRef := ((runFrom (f offered) s').1.toOption).join
      let answers : Answers := .ofParam own us l
      have hupper := hus .upper answers fun _ => rfl
      have hlower := hl answers rfl
      have hcall : Walks f (f offered) (recording f offered) s' [⟨[], var, upper, lower⟩] answers
          own := by
        refine Walks.call f s' ⟨[], var, upper, lower⟩ answers fun a ha => ?_
        show ((runFrom (f offered) s').1.toOption).join = a
        rw [show (runFrom (f offered) s').1 = .ok a from ha]
        rfl
      refine ⟨answers, ?_⟩
      rw [rewriteM, rewriteM, occurrences]
      refine hupper.bind (hlower.bind ?_)
      rw [← List.append_nil [_]]
      refine hcall.bind ?_
      have hown : answers [] = own := rfl
      rw [replaceAt, hown]
      cases own with
      | none => exact .pure _
      | some r => exact .pure _

/-! ## What answers at places come to -/

section

variable {t : TypeRef} {answers : Answers}

theorem getElem?_replaceAllAt (ts : List TypeRef) (answers : Nat → Answers) (i : Nat) :
    (replaceAllAt ts answers)[i]? = ts[i]?.map (·.replaceAt (answers i)) := by
  induction ts generalizing answers i with
  | nil => rfl
  | cons t ts ih =>
      rw [replaceAllAt]
      cases i with
      | zero => rfl
      | succ i => exact ih _ i

theorem replaceOptionAt_eq_map (lower : Option TypeRef) (answers : Answers) :
    replaceOptionAt lower answers = lower.map (·.replaceAt answers) := by
  cases lower with
  | none => rfl
  | some t => rfl

/-- Where nothing is put, the answers are for what is further in. -/
theorem child?_replaceAt (h : ∀ p, t.param? = some p → answers [] = none) (step : Step) :
    (t.replaceAt answers).child? step =
      (t.child? step).map (·.replaceAt (answers.behind step)) := by
  cases t with
  | declared name args dims =>
      rw [replaceAt]
      cases step with
      | arg i => exact getElem?_replaceAllAt args _ i
      | upper i => rfl
      | lower => rfl
  | param var upper lower dims =>
      rw [replaceAt, h _ rfl]
      cases step with
      | arg i => rfl
      | upper i => exact getElem?_replaceAllAt upper _ i
      | lower => exact replaceOptionAt_eq_map lower _

theorem root_replaceAt (h : ∀ p, t.param? = some p → answers [] = none) :
    (t.replaceAt answers).root = t.root := by
  cases t with
  | declared name args dims => rw [replaceAt]; rfl
  | param var upper lower dims => rw [replaceAt, h _ rfl]; rfl

/-- Nothing is put on the outside of the place. -/
def Answers.LeadTo (answers : Answers) (t : TypeRef) (place : List Step) : Prop :=
  ∀ o ∈ t.occurrences, o.place <+: place → o.place ≠ place → answers o.place = none

/-- **What stands at a place after answers were put at places**, where the answers on the outside of
it have left it. -/
theorem at?_replaceAt {place : List Step} (h : answers.LeadTo t place) :
    (t.replaceAt answers).at? place =
      (t.at? place).map (·.replaceAt fun inner => answers (place ++ inner)) := by
  induction place generalizing t answers with
  | nil => rfl
  | cons step path ih =>
      have hhere : ∀ p, t.param? = some p → answers [] = none := fun p hp =>
        h ⟨[], p⟩ (nil_mem_occurrences_iff.mpr hp) List.nil_prefix (List.cons_ne_nil _ _).symm
      rw [at?, at?, child?_replaceAt hhere, Option.bind_map, Option.map_bind]
      refine Option.bind_congr fun u hu => ih fun o ho hprefix hne => ?_
      exact h (o.behind step) (cons_mem_occurrences_iff.mpr ⟨u, hu, ho⟩)
        (List.cons_prefix_cons.mpr ⟨rfl, hprefix⟩) fun he => hne (List.cons.inj he).2

/-- Where no answer puts anything, nothing changes. -/
theorem replaceAt_eq_self (h : ∀ o ∈ t.occurrences, answers o.place = none) :
    t.replaceAt answers = t := by
  induction t using inductOnChildren generalizing answers with
  | h t ih =>
      have hhere : ∀ p, t.param? = some p → answers [] = none := fun p hp =>
        h ⟨[], p⟩ (nil_mem_occurrences_iff.mpr hp)
      refine eq_of_child? (root_replaceAt hhere) fun step => ?_
      rw [child?_replaceAt hhere]
      cases hu : t.child? step with
      | none => rfl
      | some u =>
          exact congrArg some (ih step u hu fun o ho =>
            h (o.behind step) (cons_mem_occurrences_iff.mpr ⟨u, hu, ho⟩))

end

/-- One reference stands for another one: nothing in it has changed, and the dimensions of both are
added up. -/
structure PutFor (replacement node u : TypeRef) : Prop where
  declared : u.declared? = replacement.declared?
  param : u.param? = replacement.param?
  depth : u.dims.depth = replacement.dims.depth + node.dims.depth

theorem putFor_under (replacement node : TypeRef) :
    replacement.PutFor node (replacement.under node.dims) := by
  cases replacement with
  | declared name args dims => exact ⟨rfl, rfl, rfl⟩
  | param var upper lower dims => exact ⟨rfl, rfl, rfl⟩

/-- What is put at a place of a parameter stands for the parameter. -/
theorem exists_putFor {t r : TypeRef} {answers : Answers} {o : Occurrence}
    (ho : o ∈ t.occurrences) (hr : answers o.place = some r) (h : answers.LeadTo t o.place) :
    ∃ node u, t.at? o.place = some node ∧ (t.replaceAt answers).at? o.place = some u
      ∧ r.PutFor node u := by
  obtain ⟨node, hnode, hp⟩ := Option.bind_eq_some_iff.mp (mem_occurrences_iff.mp ho)
  refine ⟨node, r.under node.dims, hnode, ?_, putFor_under r node⟩
  cases node with
  | declared => cases hp
  | param var upper lower dims =>
      rw [at?_replaceAt h, hnode, Option.map_some, replaceAt, List.append_nil, hr]
      rfl

/-! ## The contract -/

namespace Traversed

variable {α : Type} {os : List Occurrence} {answers : Answers} {value : α}
  {calls : List (Call ε)} {result : Except ε α}

theorem forall₂_for (answers : Answers) (os : List Occurrence) :
    List.Forall₂ (Call.For answers) os (os.map (Call.of answers) : List (Call ε)) :=
  List.forall₂_map_right_iff.mpr
    (List.forall₂_same.mpr fun _ _ => ⟨rfl, fun _ ha => Except.ok.inj ha⟩)

/-- The calls are for the first of the occurrences, in their order. -/
theorem exists_prefix (h : Traversed os answers value calls result) :
    ∃ called, called <+: os ∧ List.Forall₂ (Call.For answers) called calls := by
  cases h with
  | done => exact ⟨os, List.prefix_rfl, forall₂_for answers os⟩
  | @stopped before after o e hos =>
      refine ⟨before ++ [o], ⟨after, by rw [hos, List.append_assoc]; rfl⟩, ?_⟩
      exact List.rel_append (forall₂_for answers before)
        (.cons ⟨rfl, fun a ha => by cases ha⟩ .nil)

theorem exists_ok_of_mem_map {call : Call ε} (hcall : call ∈ os.map (Call.of answers)) :
    ∃ a, call.answer = .ok a := by
  obtain ⟨o, -, rfl⟩ := List.mem_map.mp hcall
  exact ⟨answers o.place, rfl⟩

/-- A call before the last one has not failed. -/
theorem exists_ok_of_mem_dropLast (h : Traversed os answers value calls result) {call : Call ε}
    (hcall : call ∈ calls.dropLast) : ∃ a, call.answer = .ok a := by
  cases h with
  | done => exact exists_ok_of_mem_map (List.dropLast_subset _ hcall)
  | @stopped before after o e hos =>
      rw [List.dropLast_concat] at hcall
      exact exists_ok_of_mem_map hcall

theorem eq_error_iff (h : Traversed os answers value calls result) (e : ε) :
    result = .error e ↔ ∃ call ∈ calls, call.answer = .error e := by
  have hok : ∀ os : List Occurrence, ∀ call ∈ os.map (Call.of answers), call.answer ≠ .error e := by
    intro os call hcall he
    obtain ⟨a, ha⟩ := exists_ok_of_mem_map hcall
    cases ha.symm.trans he
  cases h with
  | done => exact iff_of_false (fun he => by cases he) fun ⟨call, hcall, he⟩ => hok os call hcall he
  | @stopped before after o e' hos =>
      refine ⟨?_, ?_⟩
      · rintro ⟨⟩
        exact ⟨_, List.mem_append_right _ List.mem_cons_self, rfl⟩
      · rintro ⟨call, hmem, he⟩
        rcases List.mem_append.mp hmem with hmem | hmem
        · exact absurd he (hok before call hmem)
        · obtain rfl := List.mem_singleton.mp hmem
          exact congrArg Except.error (Except.error.inj he)

theorem forall_of_ok (h : Traversed os answers value calls result) {u : α} (hu : result = .ok u) :
    ∀ call ∈ calls, ∀ e, call.answer ≠ .error e := fun call hcall e he => by
  rw [(h.eq_error_iff e).mpr ⟨call, hcall, he⟩] at hu
  cases hu

/-- If no call fails, there is one for each occurrence. -/
theorem eq_of_ok (h : Traversed os answers value calls result)
    (hok : ∀ call ∈ calls, ∀ e, call.answer ≠ .error e) :
    calls = os.map (Call.of answers) ∧ result = .ok value := by
  cases h with
  | done => exact ⟨rfl, rfl⟩
  | @stopped before after o e hos =>
      exact absurd rfl (hok _ (List.mem_append_right _ List.mem_cons_self) e)

end Traversed

/-- The same where the place is inside of an occurrence: the parameter is offered with what was put
there. -/
theorem exists_putFor_offered {r : TypeRef} {answers : Answers} {o o' : Occurrence}
    (ho' : o' ∈ o.param.toRef.occurrences) (hne : o'.place ≠ [])
    (hr : answers (o.place ++ o'.place) = some r)
    (h : (answers.within o.place).LeadTo o.param.toRef o'.place) :
    ∃ node u, o.param.toRef.at? o'.place = some node
      ∧ (o.offered answers).toRef.at? o'.place = some u ∧ r.PutFor node u := by
  have hr' : answers.within o.place o'.place = some r := by
    obtain ⟨step, path, he⟩ := List.exists_cons_of_ne_nil hne
    rw [he] at hr ⊢
    exact hr
  have hoffered : (o.offered answers).toRef = o.param.toRef.replaceAt (answers.within o.place) := by
    rw [TypeParam.toRef, TypeParam.toRef, replaceAt]
    rfl
  rw [hoffered]
  exact exists_putFor ho' hr' h

/-- A function without effects is called for nothing but its answers. -/
theorem rewriteM_pure {m : Type → Type} [Monad m] [LawfulMonad m] (g : TypeParam → Option TypeRef)
    (t : TypeRef) : rewriteM (m := m) (fun p => pure (g p)) t = pure (t.rewrite g) := by
  have hall : ∀ ts : List TypeRef,
      (∀ t ∈ ts, rewriteM (m := m) (fun p => pure (g p)) t = pure (t.rewrite g)) →
      rewriteListM (m := m) (fun p => pure (g p)) ts = pure (ts.map (rewrite g)) := by
    intro ts h
    induction ts with
    | nil => rfl
    | cons t ts ih =>
        obtain ⟨ht, hts⟩ := List.forall_mem_cons.mp h
        rw [rewriteListM, ht, pure_bind, ih hts, pure_bind, List.map_cons]
  induction t with
  | declared name args dims ih => rw [rewriteM, hall args ih, pure_bind, rewrite_declared]
  | param var upper lower dims ihu ihl =>
      have hlower : rewriteOptionM (m := m) (fun p => pure (g p)) lower =
          pure (lower.map (rewrite g)) := by
        cases lower with
        | none => rfl
        | some t =>
            rw [rewriteOptionM, ihl t rfl, pure_bind]
            rfl
      rw [rewriteM, hall upper ihu, pure_bind, hlower, pure_bind, pure_bind, rewrite_param]
      cases g _ with
      | none => rfl
      | some r => rfl

/-- **Rewriting without effects** puts the answers of the function at the places that they are for. -/
theorem exists_rewrite_eq_replaceAt (g : TypeParam → Option TypeRef) (t : TypeRef) :
    ∃ answers, t.rewrite g = t.replaceAt answers
      ∧ ∀ o ∈ t.occurrences, answers o.place = g (o.offered answers) := by
  obtain ⟨answers, calls, result, s', hrun, -, hmade, htraversed⟩ :=
    exists_walks_rewriteM (ε := Empty) (σ := Unit) (fun p => pure (g p)) t ()
  have hresult : result = .ok (t.rewrite g) := by
    rw [rewriteM_pure, runFrom_pure] at hrun
    exact (congrArg Prod.fst hrun).symm
  obtain ⟨hcalls, hvalue⟩ := htraversed.eq_of_ok (htraversed.forall_of_ok hresult)
  refine ⟨answers, Except.ok.inj (hresult.symm.trans hvalue), fun o ho => ?_⟩
  have hmem : Call.of answers o ∈ calls := by
    rw [hcalls]
    exact List.mem_map_of_mem ho
  obtain ⟨s₀, hanswer⟩ := hmade.exists_answer_eq hmem
  exact Except.ok.inj hanswer

/-- What a function can rely on when a reference is rewritten with it. These are the calls that it
gets, with its answers and where they go, and what comes out. -/
structure Contract (t : TypeRef) (answers : Answers) (calls : List (Call ε))
    (result : Except ε TypeRef) : Prop where
  /-- There is one call at most for each occurrence of a parameter, and they come in postorder. -/
  called : ∃ called, called <+: t.occurrences ∧ List.Forall₂ (Call.For answers) called calls
  /-- After a failure there is no further call. -/
  halted : ∀ call ∈ calls.dropLast, ∃ a, call.answer = .ok a
  failed : ∀ e, result = .error e ↔ ∃ call ∈ calls, call.answer = .error e
  /-- Without a failure there is exactly one call for each node that is a parameter. -/
  complete : (∀ call ∈ calls, ∀ e, call.answer ≠ .error e) →
    List.Forall₂ (Call.For answers) t.occurrences calls ∧ calls.length = t.params.length
      ∧ result = .ok (t.replaceAt answers)
  declined : (∀ call ∈ calls, call.answer = .ok none) → result = .ok t
  /-- An answer is found in the result as it was given, unless there is an answer for a place on the
  outside of it. -/
  substituted : ∀ (u r : TypeRef), ∀ o ∈ t.occurrences, result = .ok u →
    answers o.place = some r → answers.LeadTo t o.place →
    ∃ node v, t.at? o.place = some node ∧ u.at? o.place = some v ∧ r.PutFor node v
  /-- So it is in the parameters that are offered later. -/
  nested : ∀ (r : TypeRef), ∀ o ∈ t.occurrences, ∀ o' ∈ o.param.toRef.occurrences,
    o'.place ≠ [] → answers (o.place ++ o'.place) = some r →
    (answers.within o.place).LeadTo o.param.toRef o'.place →
    ∃ node v, o.param.toRef.at? o'.place = some node
      ∧ (o.offered answers).toRef.at? o'.place = some v ∧ r.PutFor node v

theorem Traversed.contract {t : TypeRef} {answers : Answers} {calls : List (Call ε)}
    {result : Except ε TypeRef}
    (h : Traversed t.occurrences answers (t.replaceAt answers) calls result) :
    t.Contract answers calls result where
  called := h.exists_prefix
  halted _ hcall := h.exists_ok_of_mem_dropLast hcall
  failed := h.eq_error_iff
  complete hok := by
    obtain ⟨hcalls, hresult⟩ := h.eq_of_ok hok
    have hlen : t.occurrences.length = t.params.length := by
      rw [← (perm_params_occurrences t).length_eq, List.length_map]
    rw [hcalls, List.length_map]
    exact ⟨forall₂_for answers t.occurrences, hlen, hresult⟩
  declined hnone := by
    have hok : ∀ call ∈ calls, ∀ e, call.answer ≠ .error e := fun call hcall e he => by
      rw [hnone call hcall] at he
      cases he
    obtain ⟨hcalls, hresult⟩ := h.eq_of_ok hok
    rw [hresult, replaceAt_eq_self fun o ho => ?_]
    rw [hcalls] at hnone
    exact Except.ok.inj (hnone _ (List.mem_map_of_mem ho))
  substituted u r o ho hu hr hlead := by
    obtain ⟨-, hvalue⟩ := h.eq_of_ok (h.forall_of_ok hu)
    obtain rfl : t.replaceAt answers = u := Except.ok.inj (hvalue.symm.trans hu)
    exact exists_putFor ho hr hlead
  nested _ _ _ _ ho' hne hr hlead := exists_putFor_offered ho' hne hr hlead

/-- **Rewriting keeps its contract**, whatever reference it is that is rewritten, and whatever the
function does: it may change its state, fail, or put anything in the place of a parameter. -/
theorem rewriteM_contract (f : Rewriter ε σ) (t : TypeRef) (s : σ) :
    t.Postorder t.occurrences ∧
      ∃ (answers : Answers) (calls : List (Call ε)) (result : Except ε TypeRef) (s' : σ),
        runFrom (rewriteM f t) s = (result, s')
          ∧ runFrom (rewriteM (recording f) t) (s, []) = (result, s', calls)
          ∧ Made f s calls s' ∧ t.Contract answers calls result := by
  obtain ⟨answers, calls, result, s', hrun, hrecorded, hmade, htraversed⟩ :=
    exists_walks_rewriteM f t s
  exact ⟨postorder_occurrences t, answers, calls, result, s', hrun, hrecorded [], hmade,
    htraversed.contract⟩

end TraitWeaver.TypeRef
