import TraitWeaver.Proofs.HostResolution
import TraitWeaver.Proofs.RoundSteps
import TraitWeaver.Proofs.TraitResolution

/-!
# What a round has made

A declaration can drop out of a round at many points: it is refused, its name is
taken, a file of it is refused, or files of a trait that it needs are missing. At
each of them one declaration is counted as skipped, one error is reported, and
nothing is listed as generated. So the books of a round balance (`Account`): every
declaration that is not skipped has been made, and has all its files.

The account is opened with the checks of the traits and carried through the two
loops by one lemma for each kind of step. A host is made only if none of its
traits has failed, and each trait that the round knows was either made before or
has failed. So a superclass never comes before the files that it refers to.
-/

namespace TraitWeaver

/-! ## Reports -/

namespace RoundResult

variable {r r' : RoundResult} {d : Diagnostic}

/-- There is an error for every declaration that was skipped. -/
def Reported (r : RoundResult) : Prop :=
  r.skippedTraits + r.skippedHosts ≤ Diagnostic.errorCount r.diagnostics

@[simp] theorem report_nil (r : RoundResult) : r.report [] = r := by
  unfold RoundResult.report
  rw [List.append_nil]

theorem reported_empty : empty.Reported := Nat.zero_le _

theorem Reported.append (h : r.Reported) (h' : r'.Reported) : (r.append r').Reported := by
  unfold Reported Diagnostic.errorCount RoundResult.append at *
  rw [List.countP_append]
  dsimp only
  omega

theorem Reported.report (h : r.Reported) (ds : List Diagnostic) : (r.report ds).Reported := by
  unfold Reported Diagnostic.errorCount RoundResult.report at *
  rw [List.countP_append]
  exact Nat.le_add_right_of_le h

theorem Reported.skipTrait (h : r.Reported) (hd : d.isError) : (r.skipTrait d).Reported := by
  unfold Reported Diagnostic.errorCount RoundResult.skipTrait RoundResult.report at *
  rw [List.countP_append, List.countP_singleton, if_pos hd]
  dsimp only
  omega

theorem Reported.skipHost (h : r.Reported) (hd : d.isError) : (r.skipHost d).Reported := by
  unfold Reported Diagnostic.errorCount RoundResult.skipHost RoundResult.report at *
  rw [List.countP_append, List.countP_singleton, if_pos hd]
  dsimp only
  omega

end RoundResult

theorem DeclarationError.isError_diagnostic (e : DeclarationError) (location : String) :
    (e.diagnostic location).isError := by
  unfold diagnostic
  split <;> rfl

namespace Declarations

theorem isError_of_accept {index : TraitIndex} {failed : List String} {d : HostDecl}
    {fault : Diagnostic} (h : accept index failed d = .error fault) : fault.isError := by
  unfold accept at h
  split at h
  · obtain rfl := Except.error.inj h
    exact DeclarationError.isError_diagnostic _ _
  · split at h
    · obtain rfl := Except.error.inj h
      rfl
    · cases h

/-! ## The checks -/

/-- What is known after checking some number of traits. -/
structure Checked (count : Nat) (state : TraitIndex × RoundResult) : Prop where
  generated : state.2.generated = []
  skippedHosts : state.2.skippedHosts = 0
  /-- Each of them is either known or skipped. -/
  count_eq : state.2.skippedTraits + state.1.traits.length = count
  reported : state.2.Reported

theorem Checked.addTrait {count : Nat} {state : TraitIndex × RoundResult}
    (h : Checked count state) (config : Config) (d : TraitDecl) :
    Checked (count + 1) (addTrait config state d) := by
  obtain ⟨index, result⟩ := state
  have hcount : result.skippedTraits + index.traits.length = count := h.count_eq
  have hskip : ∀ (ds : List Diagnostic) (e : DeclarationError),
      Checked (count + 1) (index, (result.report ds).skipTrait (e.diagnostic d.name)) := by
    intro ds e
    refine ⟨h.generated, h.skippedHosts, ?_, (h.reported.report ds).skipTrait ?_⟩
    · show result.skippedTraits + 1 + index.traits.length = count + 1
      omega
    · exact e.isError_diagnostic d.name
  unfold Declarations.addTrait
  dsimp only
  cases d.resolve config with
  | error e =>
      have := hskip [] e
      rwa [RoundResult.report_nil] at this
  | ok resolved =>
      obtain ⟨t, ds⟩ := resolved
      dsimp only
      split
      · exact hskip ds _
      · rename_i hfree
        refine ⟨h.generated, h.skippedHosts, ?_, h.reported.report ds⟩
        have := TraitIndex.length_traits_insert (by simpa using hfree)
        show result.skippedTraits + (index.insert t).traits.length = count + 1
        omega

theorem checked_checkTraits (d : Declarations) (config : Config) :
    Checked d.traits.length (d.checkTraits config) := by
  have hfold : ∀ (decls : List TraitDecl) (count : Nat) (state : TraitIndex × RoundResult),
      Checked count state →
      Checked (count + decls.length) (decls.foldl (Declarations.addTrait config) state) := by
    intro decls
    induction decls with
    | nil => exact fun _ _ h => h
    | cons decl decls ih =>
        intro count state h
        have := ih _ _ (h.addTrait config decl)
        rwa [Nat.add_assoc, Nat.add_comm 1] at this
  have := hfold d.traits 0 (.empty, .empty) ⟨rfl, rfl, rfl, RoundResult.reported_empty⟩
  rwa [Nat.zero_add] at this

end Declarations

/-! ## Files of several requests -/

/-- The names of the files of a trait: its interface and its delegate. -/
def Trait.fileNames (t : Trait) (c : Config) : List String :=
  [(t.interfaceFile c).name.qualified, (t.delegateFile c).name.qualified]

/-- The name of the file of a host. -/
def Host.superclassName (h : Host) (c : Config) : String := (h.superclassFile c).name.qualified

/-- The files of a trait are named after it. -/
theorem Trait.fileNames_congr {t u : Trait} (h : t.name = u.name) (c : Config) :
    t.fileNames c = u.fileNames c := by
  have hnames : ∀ t : Trait, t.fileNames c =
      [(⟨t.name.package, c.interfaceOf t.name.simple⟩ : DeclaredName).qualified,
        (⟨t.name.package, c.delegateOf t.name.simple⟩ : DeclaredName).qualified] := fun _ => rfl
  rw [hnames, hnames, h]

theorem Trait.length_flatMap_fileNames (c : Config) (ts : List Trait) :
    (ts.flatMap (·.fileNames c)).length = 2 * ts.length := by
  induction ts with
  | nil => rfl
  | cons t ts ih =>
      rw [List.flatMap_cons, List.length_append, ih, List.length_cons, Nat.mul_succ, Nat.add_comm]
      rfl

/-- The files of some requests are all there. -/
structure Stored (config : Config) (contents : Contents) (made : List Request) : Prop where
  /-- No two of the files have one name. -/
  distinct : (made.flatMap (·.fileNames config)).Nodup
  /-- Each of them has the text that its plan is rendered to. -/
  written : ∀ r ∈ made, ∀ u ∈ r.units config,
    ∃ text, u.render = .ok text ∧ contents u.name.qualified = some text

namespace Stored

variable {config : Config} {before after : Contents} {made : List Request} {r : Request}
  {files : List SourceFile}

theorem nil : Stored config before [] where
  distinct := List.nodup_nil
  written := fun _ hr => absurd hr List.not_mem_nil

theorem of_extends (h : Stored config before made) (hext : before.Extends after) :
    Stored config after made where
  distinct := h.distinct
  written := by
    intro r hr u hu
    obtain ⟨text, hrender, hread⟩ := h.written r hr u hu
    exact ⟨text, hrender, hext _ _ hread⟩

theorem exists_of_mem (h : Stored config before made) {name : String}
    (hname : name ∈ made.flatMap (·.fileNames config)) : ∃ text, before name = some text := by
  obtain ⟨r, hr, hname⟩ := List.mem_flatMap.mp hname
  obtain ⟨u, hu, rfl⟩ := List.mem_map.mp hname
  obtain ⟨text, -, hread⟩ := h.written r hr u hu
  exact ⟨text, hread⟩

/-- **New files are new.** They were created under names that none of the others has. -/
theorem snoc (h : Stored config before made) (hfinished : r.IsFinished config files)
    (hcreated : before.Created after files) : Stored config after (made ++ [r]) where
  distinct := by
    rw [List.flatMap_append, List.flatMap_singleton, ← hfinished.map_name]
    refine List.nodup_append.mpr ⟨h.distinct, hcreated.distinct, ?_⟩
    intro name hname name' hname' he
    obtain ⟨text, hread⟩ := h.exists_of_mem hname
    obtain ⟨f, hf, rfl⟩ := List.mem_map.mp hname'
    rw [he, hcreated.free f hf] at hread
    cases hread
  written := by
    intro r' hr' u hu
    rcases List.mem_append.mp hr' with hr' | hr'
    · exact (h.of_extends hcreated.extends).written r' hr' u hu
    · obtain rfl := List.mem_singleton.mp hr'
      obtain ⟨f, hf, hname, hrender⟩ := exists_rel_of_mem hfinished.flip hu
      exact ⟨f.text, hrender, hname ▸ hcreated.written f hf⟩

/-- A request leaves all its files there, or none that count. -/
theorem answered {σ : Type} {read : σ → Contents} {g g' : Generator} {s s' : σ}
    {answer : Except GenerationError (List String)} (h : Stored config (read s) made)
    (hg : g.config = config) (ha : Answered read g r s s' answer g') :
    (answer = .ok (r.fileNames config) ∧ Stored config (read s') (made ++ [r]))
      ∨ ∃ e, answer = .error e ∧ Stored config (read s') made := by
  subst hg
  have hkept := h.of_extends ha.extends
  cases ha with
  | repeated => exact Or.inr ⟨_, rfl, hkept⟩
  | unwritable => exact Or.inr ⟨_, rfl, hkept⟩
  | refused => exact Or.inr ⟨_, rfl, hkept⟩
  | generated _ hfinished hcreated => exact Or.inl ⟨rfl, h.snoc hfinished hcreated⟩

end Stored

/-! ## The loops -/

namespace Declarations

variable {σ : Type} {filer : Filer (StateM σ)} {read : σ → Contents} {config : Config}
  {p p' : Progress} {s s' : σ}

/-- What is written down of a round is what has been made. -/
structure Progress.Accounts (p : Progress) (config : Config) (contents : Contents)
    (made : List Request) : Prop where
  config_eq : p.generator.config = config
  generated : p.result.generated = made.flatMap (·.fileNames config)
  stored : Stored config contents made
  reported : p.result.Reported

/-- An answered request has made all its files, or none that count. -/
theorem Progress.Accounts.answer {made : List Request} {r : Request}
    {answer : Except GenerationError (List String)} {g : Generator} (hf : filer.Keeps read)
    (h : p.Accounts config (read s) made)
    (hrun : (p.generator.answer filer r).run s = ((answer, g), s')) :
    g.config = config ∧
      ((∃ names, answer = .ok names ∧ Stored config (read s') (made ++ [r])
          ∧ p.result.generated ++ names = (made ++ [r]).flatMap (·.fileNames config))
        ∨ ∃ e, answer = .error e ∧ Stored config (read s') made) := by
  have ha := hf.answered hrun
  refine ⟨ha.config_eq.trans h.config_eq, ?_⟩
  rcases h.stored.answered h.config_eq ha with ⟨rfl, hstored⟩ | hfailed
  · refine Or.inl ⟨_, rfl, hstored, ?_⟩
    rw [List.flatMap_append, List.flatMap_singleton, h.generated]
  · exact Or.inr hfailed

/-- **A trait is made, or else it fails and is skipped.** -/
theorem Progress.Accounts.generateTrait {made : List Request} {t : Trait} (hf : filer.Keeps read)
    (h : p.Accounts config (read s) made) (hrun : (generateTrait filer p t).run s = (p', s')) :
    p'.result.skippedHosts = p.result.skippedHosts ∧
      ((p'.Accounts config (read s') (made ++ [.trait t]) ∧ p'.failed = p.failed
          ∧ p'.result.skippedTraits = p.result.skippedTraits)
        ∨ (p'.Accounts config (read s') made ∧ p'.failed = t.qualifiedName :: p.failed
          ∧ p'.result.skippedTraits = p.result.skippedTraits + 1)) := by
  rw [generateTrait_eq, StateT.run_map] at hrun
  cases hanswer : (p.generator.answer filer (.trait t)).run s with
  | mk outcome s₁ =>
      obtain ⟨answer, g⟩ := outcome
      rw [hanswer] at hrun
      cases hrun
      obtain ⟨hg, ⟨names, rfl, hstored, hnames⟩ | ⟨e, rfl, hstored⟩⟩ := h.answer hf hanswer
      · exact ⟨rfl, Or.inl ⟨⟨hg, hnames, hstored, h.reported⟩, rfl, rfl⟩⟩
      · exact ⟨rfl, Or.inr ⟨⟨hg, h.generated, hstored, h.reported.skipTrait rfl⟩, rfl, rfl⟩⟩

/-- **A host is made of its declaration, if no trait of it has failed, or else it is skipped.** -/
theorem Progress.Accounts.generateHost {index : TraitIndex} {made : List Request} {d : HostDecl}
    (hf : filer.Keeps read) (h : p.Accounts config (read s) made)
    (hrun : (generateHost filer index p d).run s = (p', s')) :
    p'.failed = p.failed ∧ p'.result.skippedTraits = p.result.skippedTraits ∧
      ((∃ host, accept index p.failed d = .ok host
          ∧ p'.Accounts config (read s') (made ++ [.host host])
          ∧ p'.result.skippedHosts = p.result.skippedHosts)
        ∨ (p'.Accounts config (read s') made
          ∧ p'.result.skippedHosts = p.result.skippedHosts + 1)) := by
  have hreported := h.reported.report (d.resolve index).2
  rw [generateHost_eq] at hrun
  cases haccept : accept index p.failed d with
  | error fault =>
      rw [haccept] at hrun
      cases hrun
      exact ⟨rfl, rfl, Or.inr ⟨⟨h.config_eq, h.generated, h.stored,
        hreported.skipHost (isError_of_accept haccept)⟩, rfl⟩⟩
  | ok host =>
      rw [haccept] at hrun
      dsimp only at hrun
      rw [StateT.run_map] at hrun
      cases hanswer : (p.generator.answer filer (.host host)).run s with
      | mk outcome s₁ =>
          obtain ⟨answer, g⟩ := outcome
          rw [hanswer] at hrun
          cases hrun
          obtain ⟨hg, ⟨names, rfl, hstored, hnames⟩ | ⟨e, rfl, hstored⟩⟩ := h.answer hf hanswer
          · exact ⟨rfl, rfl, Or.inl ⟨host, rfl, ⟨hg, hnames, hstored, hreported⟩, rfl⟩⟩
          · exact ⟨rfl, rfl, Or.inr ⟨⟨hg, h.generated, hstored, hreported.skipHost rfl⟩, rfl⟩⟩

/-! ## The whole loops -/

/-- Some of the traits that were asked for have been made, and all others have failed. -/
structure Progress.MadeTraits (p : Progress) (config : Config) (contents : Contents)
    (asked made : List Trait) : Prop where
  accounts : p.Accounts config contents (made.map .trait)
  sublist : made.Sublist asked
  made_or_failed : ∀ t ∈ asked, t ∈ made ∨ t.qualifiedName ∈ p.failed
  count_eq : p.result.skippedTraits + made.length = asked.length
  skippedHosts : p.result.skippedHosts = 0

theorem Progress.MadeTraits.step {asked made : List Trait} {t : Trait} (hf : filer.Keeps read)
    (h : p.MadeTraits config (read s) asked made)
    (hrun : (generateTrait filer p t).run s = (p', s')) :
    ∃ made', p'.MadeTraits config (read s') (asked ++ [t]) made' := by
  have hcount := h.count_eq
  obtain ⟨hhosts, ⟨haccounts, hfailed, hskipped⟩ | ⟨haccounts, hfailed, hskipped⟩⟩ :=
    h.accounts.generateTrait hf hrun
  · refine ⟨made ++ [t], ?_, h.sublist.append (List.Sublist.refl _), ?_, ?_,
      hhosts.trans h.skippedHosts⟩
    · rw [List.map_append]
      exact haccounts
    · intro u hu
      rw [hfailed]
      rcases List.mem_append.mp hu with hu | hu
      · exact (h.made_or_failed u hu).imp_left (List.mem_append_left _)
      · exact Or.inl (List.mem_append_right _ hu)
    · rw [List.length_append, List.length_append, hskipped]
      omega
  · refine ⟨made, haccounts, h.sublist.trans (List.sublist_append_left _ _), ?_, ?_,
      hhosts.trans h.skippedHosts⟩
    · intro u hu
      rw [hfailed]
      rcases List.mem_append.mp hu with hu | hu
      · exact (h.made_or_failed u hu).imp_right (List.mem_cons_of_mem _)
      · exact Or.inr (List.mem_singleton.mp hu ▸ List.mem_cons_self)
    · rw [List.length_append, List.length_singleton, hskipped]
      omega

theorem exists_madeTraits (hf : filer.Keeps read) (config : Config) (traits : List Trait) (s : σ) :
    let after := (traits.foldlM (generateTrait filer) ⟨.new config, [], .empty⟩).run s
    ∃ made, after.1.MadeTraits config (read after.2) traits made := by
  refine foldlM_induction
    (fun done (p : Progress) s => ∃ made, p.MadeTraits config (read s) done made)
    ?_ (Prod.eta _).symm ?_
  · rintro done t p s p' s' - ⟨made, h⟩ hstep
    exact h.step hf hstep
  · exact ⟨[], ⟨rfl, rfl, Stored.nil, RoundResult.reported_empty⟩, List.Sublist.refl _,
      fun _ ht => absurd ht List.not_mem_nil, rfl, rfl⟩

/-- Some of the hosts that were asked for have been made, none of them with a trait that failed. -/
structure Progress.MadeHosts (p : Progress) (config : Config) (contents : Contents)
    (index : TraitIndex) (start : Progress) (before : List Request) (asked : List HostDecl)
    (made : List (HostDecl × Host)) : Prop where
  accounts : p.Accounts config contents (before ++ made.map fun e => .host e.2)
  failed_eq : p.failed = start.failed
  sublist : (made.map (·.1)).Sublist asked
  accepted : ∀ e ∈ made, accept index start.failed e.1 = .ok e.2
  skippedTraits : p.result.skippedTraits = start.result.skippedTraits
  count_eq : p.result.skippedHosts + made.length = start.result.skippedHosts + asked.length

theorem Progress.MadeHosts.step {index : TraitIndex} {start : Progress} {before : List Request}
    {asked : List HostDecl} {made : List (HostDecl × Host)} {d : HostDecl} (hf : filer.Keeps read)
    (h : p.MadeHosts config (read s) index start before asked made)
    (hrun : (generateHost filer index p d).run s = (p', s')) :
    ∃ made', p'.MadeHosts config (read s') index start before (asked ++ [d]) made' := by
  have hcount := h.count_eq
  obtain ⟨hfailed, htraits, ⟨host, haccept, haccounts, hskipped⟩ | ⟨haccounts, hskipped⟩⟩ :=
    h.accounts.generateHost hf hrun
  · refine ⟨made ++ [(d, host)], ?_, hfailed.trans h.failed_eq, ?_, ?_,
      htraits.trans h.skippedTraits, ?_⟩
    · rw [List.map_append, ← List.append_assoc]
      exact haccounts
    · rw [List.map_append]
      exact h.sublist.append (List.Sublist.refl _)
    · intro e he
      rcases List.mem_append.mp he with he | he
      · exact h.accepted e he
      · rw [List.mem_singleton.mp he, ← h.failed_eq]
        exact haccept
    · rw [List.length_append, List.length_append, hskipped]
      dsimp only [List.length_singleton]
      omega
  · refine ⟨made, haccounts, hfailed.trans h.failed_eq,
      h.sublist.trans (List.sublist_append_left _ _), h.accepted,
      htraits.trans h.skippedTraits, ?_⟩
    rw [List.length_append, List.length_singleton, hskipped]
    omega

theorem exists_madeHosts (hf : filer.Keeps read) {index : TraitIndex} (hosts : List HostDecl)
    {before : List Request} (h : p.Accounts config (read s) before) :
    let after := (hosts.foldlM (generateHost filer index) p).run s
    ∃ made, after.1.MadeHosts config (read after.2) index p before hosts made := by
  refine foldlM_induction
    (fun done (q : Progress) s => ∃ made, q.MadeHosts config (read s) index p before done made)
    ?_ (Prod.eta _).symm ?_
  · rintro done d q s q' s' - ⟨made, h⟩ hstep
    exact h.step hf hstep
  · refine ⟨[], ?_, rfl, List.Sublist.refl _, fun _ he => absurd he List.not_mem_nil, rfl, rfl⟩
    rw [List.map_nil, List.append_nil]
    exact h

/-! ## The account of a round -/

/-- The requests for some traits and for hosts after them. -/
def requestsFor (traits : List Trait) (hosts : List (HostDecl × Host)) : List Request :=
  traits.map .trait ++ hosts.map fun e => .host e.2

theorem flatMap_fileNames_requestsFor (config : Config) (traits : List Trait)
    (hosts : List (HostDecl × Host)) :
    (requestsFor traits hosts).flatMap (·.fileNames config) =
      traits.flatMap (·.fileNames config) ++ hosts.map (·.2.superclassName config) := by
  unfold requestsFor
  rw [List.flatMap_append, List.flatMap_map, List.flatMap_map, List.map_eq_flatMap]
  rfl

/-- The books of a round in which some traits and some hosts were made. -/
structure Account (d : Declarations) (config : Config) (contents : Contents) (run : RoundResult)
    (traits : List Trait) (hosts : List (HostDecl × Host)) : Prop where
  /-- The traits are of those that the round knows. -/
  traits_sublist : traits.Sublist (d.checkTraits config).1.traits
  /-- The hosts are of those that were declared. -/
  hosts_sublist : (hosts.map (·.1)).Sublist d.hosts
  resolved : ∀ e ∈ hosts, (e.1.resolve (d.checkTraits config).1).1 = .ok e.2
  /-- The traits of a host were made. -/
  composed : ∀ e ∈ hosts, ∀ t ∈ e.2.traits, ∃ u ∈ traits, Trait.Requalified u t
  generated : run.generated = (requestsFor traits hosts).flatMap (·.fileNames config)
  stored : Stored config contents (requestsFor traits hosts)
  /-- All other traits were skipped. -/
  traits_count : run.skippedTraits + traits.length = d.traits.length
  /-- All other hosts were skipped. -/
  hosts_count : run.skippedHosts + hosts.length = d.hosts.length
  reported : run.Reported

/-- **Every round has an account.** -/
theorem exists_account (hf : filer.Keeps read) (d : Declarations) (config : Config) (s : σ) :
    let after := (d.process config filer).run s
    ∃ traits hosts, d.Account config (read after.2) after.1 traits hosts := by
  have hchecked := d.checked_checkTraits config
  rw [run_process]
  obtain ⟨traits, htraits⟩ := exists_madeTraits hf config (d.checkTraits config).1.traits s
  obtain ⟨hosts, hhosts⟩ := exists_madeHosts hf d.hosts htraits.accounts
  refine ⟨traits, hosts, htraits.sublist, hhosts.sublist, ?_, ?_, ?_,
    hhosts.accounts.stored, ?_, ?_, hchecked.reported.append hhosts.accounts.reported⟩
  · intro e he
    exact (accept_eq_ok_iff.mp (hhosts.accepted e he)).1
  · intro e he u hu
    obtain ⟨hresolve, hnone⟩ := accept_eq_ok_iff.mp (hhosts.accepted e he)
    obtain ⟨t, ht, hreq⟩ := HostDecl.exists_requalified_of_resolve hresolve hu
    -- the host keeps the trait's name, under which it would have failed
    refine ⟨t, (htraits.made_or_failed t ht).resolve_right ?_, hreq⟩
    rw [← hreq.qualifiedName]
    exact hnone u hu
  · show (d.checkTraits config).2.generated ++ _ = _
    rw [hchecked.generated, List.nil_append]
    exact hhosts.accounts.generated
  · have hknown := hchecked.count_eq
    have hmade := htraits.count_eq
    have hkept := hhosts.skippedTraits
    show (d.checkTraits config).2.skippedTraits + _ + _ = _
    omega
  · have hmade := hhosts.count_eq
    have hnone := htraits.skippedHosts
    show (d.checkTraits config).2.skippedHosts + _ + _ = _
    rw [hchecked.skippedHosts]
    omega

/-! ## What a superclass refers to -/

/-- What is listed as generated: two names for each of some traits, and behind them one name for
each of some hosts. Every trait of such a host is one of those traits. -/
structure Grounded (d : Declarations) (config : Config) (contents : Contents) (run : RoundResult)
    (traits : List Trait) (hosts : List (HostDecl × Host)) : Prop where
  listed : run.generated =
    traits.flatMap (·.fileNames config) ++ hosts.map (·.2.superclassName config)
  /-- The traits stand in the order in which the round knows them. -/
  traits_sublist : traits.Sublist (d.checkTraits config).1.traits
  /-- These are all traits that were not skipped. -/
  traits_count : run.skippedTraits + traits.length = d.traits.length
  /-- These are all hosts that were not skipped. -/
  hosts_count : run.skippedHosts + hosts.length = d.hosts.length
  /-- The hosts stand in the order of their declarations. -/
  hosts_sublist : (hosts.map (·.1)).Sublist d.hosts
  /-- Each of them is what its declaration means in this round. -/
  resolved : ∀ e ∈ hosts, (e.1.resolve (d.checkTraits config).1).1 = .ok e.2
  /-- The file that is there is the superclass of this very host. -/
  written : ∀ e ∈ hosts, ∃ text, (e.2.superclassFile config).render = .ok text
    ∧ contents (e.2.superclassName config) = some text
  /-- Whatever trait a host composes, its interface and its delegate come before, and both files are
  there. -/
  composed : ∀ e ∈ hosts, ∀ t ∈ e.2.traits, ∀ name ∈ t.fileNames config,
    name ∈ traits.flatMap (·.fileNames config) ∧ (contents name).isSome

/--
**No superclass refers to a missing file.**

Whatever the filer refuses: a superclass is listed only if the interfaces and the
delegates of all traits of its host are listed before it, and they are there. A
host may give a trait another qualifier, but the files of a trait are named after
its declaration, so they are the ones that the host refers to.
-/
theorem exists_grounded (hf : filer.Keeps read) (d : Declarations) (config : Config) (s : σ) :
    ∃ traits hosts, d.Grounded config (read ((d.process config filer).run s).2)
      ((d.process config filer).run s).1 traits hosts := by
  obtain ⟨traits, hosts, haccount⟩ := d.exists_account hf config s
  refine ⟨traits, hosts, ?_, haccount.traits_sublist, haccount.traits_count, haccount.hosts_count,
    haccount.hosts_sublist, haccount.resolved, ?_, ?_⟩
  · rw [haccount.generated, flatMap_fileNames_requestsFor]
  · intro e he
    have hmade : Request.host e.2 ∈ requestsFor traits hosts :=
      List.mem_append_right _ (List.mem_map.mpr ⟨e, he, rfl⟩)
    exact haccount.stored.written _ hmade _ List.mem_cons_self
  · intro e he t ht name hname
    obtain ⟨u, hu, hreq⟩ := haccount.composed e he t ht
    rw [Trait.fileNames_congr hreq.name] at hname
    have hlisted : name ∈ traits.flatMap (·.fileNames config) := List.mem_flatMap.mpr ⟨u, hu, hname⟩
    refine ⟨hlisted, ?_⟩
    obtain ⟨text, hread⟩ := haccount.stored.exists_of_mem
      (flatMap_fileNames_requestsFor config traits hosts ▸ List.mem_append_left _ hlisted)
    rw [hread]
    rfl

/-- A round with two traits, and two hosts of which one composes both. -/
def locked : Declarations where
  traits := [⟨"lib.Greeter", [], none, [], []⟩, ⟨"lib.Secret", [], none, [], []⟩]
  hosts := [⟨"app.Spy", ["Greeter", "Secret"], none, []⟩, ⟨"app.Person", ["Greeter"], none, []⟩]

/-- The delegate of the second trait is refused. -/
def lock (name : String) : Option FileFault :=
  if name = "lib.SecretDelegate" then some (.refused "locked") else none

/-- The interface that was created before its delegate was refused is no help: the host that
composes both traits is skipped. -/
theorem exists_grounded_locked :
    (Memory.filer lock).Keeps SortedMap.get?
      ∧ ((locked.process .bare (Memory.filer lock)).run .empty).1.generated =
          ["lib.GreeterTrait", "lib.GreeterDelegate", "app.AbstractPerson"]
      ∧ (((locked.process .bare (Memory.filer lock)).run .empty).2.get? "lib.SecretTrait").isSome
      ∧ ∃ traits hosts, locked.Grounded .bare
          ((locked.process .bare (Memory.filer lock)).run .empty).2.get?
          ((locked.process .bare (Memory.filer lock)).run .empty).1 traits hosts :=
  ⟨Memory.keeps_filer, by decide +kernel, by decide +kernel,
    exists_grounded Memory.keeps_filer locked .bare .empty⟩

/-! ## The balance -/

/-- The request is for what a declaration of the round means. -/
def Means (d : Declarations) (config : Config) : Request → Prop
  | .trait t => ∃ decl ∈ d.traits, ∃ ds, decl.resolve config = .ok (t, ds)
  | .host h => ∃ decl ∈ d.hosts, (decl.resolve (d.checkTraits config).1).1 = .ok h

/-- The books of a round balance. -/
structure Balanced (d : Declarations) (config : Config) (contents : Contents) (run : RoundResult) :
    Prop where
  skippedTraits_le : run.skippedTraits ≤ d.traits.length
  skippedHosts_le : run.skippedHosts ≤ d.hosts.length
  /-- There are two files for every trait and one for every host that was not skipped. -/
  length_generated : run.generated.length =
    2 * (d.traits.length - run.skippedTraits) + (d.hosts.length - run.skippedHosts)
  /-- No file is listed twice. -/
  nodup_generated : run.generated.Nodup
  /-- Each file is that of a declaration, and it has the text that its plan is rendered to. -/
  written : ∃ made : List Request, run.generated = made.flatMap (·.fileNames config)
    ∧ ∀ r ∈ made, d.Means config r ∧ ∀ u ∈ r.units config,
      ∃ text, u.render = .ok text ∧ contents u.name.qualified = some text
  /-- There is an error for every declaration that was skipped. -/
  reported : run.skippedTraits + run.skippedHosts ≤ Diagnostic.errorCount run.diagnostics
  /-- So a round that is not complete has an error. -/
  exists_error : run.isComplete = false → ∃ e ∈ run.diagnostics, e.isError

/--
**The books of every round balance.**

Whatever is declared and whatever is refused, and also if there are files already:
every declaration is skipped with an error, or it has all its files.
-/
theorem balanced_process (d : Declarations) (config : Config)
    (refused : String → Option FileFault) (files : Memory) :
    d.Balanced config ((d.process config (Memory.filer refused)).run files).2.get?
      ((d.process config (Memory.filer refused)).run files).1 := by
  have hkeeps : (Memory.filer refused).Keeps SortedMap.get? := Memory.keeps_filer
  obtain ⟨traits, hosts, haccount⟩ := d.exists_account hkeeps config files
  have htraits := haccount.traits_count
  have hhosts := haccount.hosts_count
  refine ⟨by omega, by omega, ?_, ?_, ⟨_, haccount.generated, ?_⟩, haccount.reported, ?_⟩
  · rw [haccount.generated, flatMap_fileNames_requestsFor, List.length_append,
      Trait.length_flatMap_fileNames, List.length_map]
    omega
  · rw [haccount.generated]
    exact haccount.stored.distinct
  · intro r hr
    refine ⟨?_, haccount.stored.written r hr⟩
    rcases List.mem_append.mp hr with hr | hr
    · obtain ⟨t, ht, rfl⟩ := List.mem_map.mp hr
      exact exists_resolve_of_mem_checkTraits (haccount.traits_sublist.subset ht)
    · obtain ⟨e, he, rfl⟩ := List.mem_map.mp hr
      exact ⟨e.1, haccount.hosts_sublist.subset (List.mem_map_of_mem he), haccount.resolved e he⟩
  · intro hincomplete
    refine List.countP_pos_iff.mp (Nat.lt_of_lt_of_le ?_ haccount.reported)
    by_contra hnone
    unfold RoundResult.isComplete at hincomplete
    rw [decide_eq_true (by omega), decide_eq_true (by omega)] at hincomplete
    cases hincomplete

end Declarations

end TraitWeaver
