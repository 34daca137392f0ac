import TraitWeaver.Proofs.Operations

/-!
# The scopes that are open

A writer takes requests in any order and with any arguments, and refuses those
that have no place. What a caller may rely on is that this never leaves it in a
state that makes no sense:

* there are only four shapes that the stack of scopes can have (`Nested`), and the
  kinds of the open types, which the writer keeps beside the scopes, belong to the
  type scopes one by one;
* these kinds are those of the types that were opened last and not closed again, as
  the accepted requests tell it;
* a refused request has had no effect. So a series of requests comes to the same
  as those of them that were accepted (`applyAll_accepted`), and what every
  accepted operation preserves holds of the writer at any time.
-/

namespace TraitWeaver

namespace Writer

/-- The scopes and kinds that go together, the innermost ones first. -/
inductive Nested : List Scope → List TypeKind → Prop
  /-- Nothing has been opened. -/
  | fresh : Nested [] []
  /-- The package is there, and the imports are not. -/
  | package : Nested [.package] []
  /-- There are types in one another, each with its kind, or none. -/
  | types (kinds : List TypeKind) :
    Nested (kinds.map (fun _ => .type) ++ [.imports, .package]) kinds
  /-- There is a method in the innermost type. -/
  | method (kind : TypeKind) (outer : List TypeKind) :
    Nested (.method :: ((kind :: outer).map (fun _ => .type) ++ [.imports, .package]))
      (kind :: outer)

namespace Nested

variable {scopes : List Scope} {kinds : List TypeKind}

theorem of_nil (h : Nested scopes kinds) (hs : scopes = []) : kinds = [] := by
  cases h with
  | fresh => rfl
  | package => rfl
  | types => cases kinds <;> cases hs
  | method => cases hs

theorem of_head_package (h : Nested scopes kinds) (hs : scopes.head? = some .package) :
    scopes = [.package] ∧ kinds = [] := by
  cases h with
  | fresh => cases hs
  | package => exact ⟨rfl, rfl⟩
  | types => cases kinds <;> cases hs
  | method => cases hs

theorem of_head_imports (h : Nested scopes kinds) (hs : scopes.head? = some .imports) :
    scopes = [.imports, .package] ∧ kinds = [] := by
  cases h with
  | fresh => cases hs
  | package => cases hs
  | types =>
      cases kinds with
      | nil => exact ⟨rfl, rfl⟩
      | cons => cases hs
  | method => cases hs

theorem of_head_type (h : Nested scopes kinds) (hs : scopes.head? = some .type) :
    ∃ kind outer, kinds = kind :: outer
      ∧ scopes = (kind :: outer).map (fun _ => .type) ++ [.imports, .package] := by
  cases h with
  | fresh => cases hs
  | package => cases hs
  | types =>
      cases kinds with
      | nil => cases hs
      | cons kind outer => exact ⟨kind, outer, rfl, rfl⟩
  | method => cases hs

theorem of_head_method (h : Nested scopes kinds) (hs : scopes.head? = some .method) :
    ∃ kind outer, kinds = kind :: outer
      ∧ scopes = .method :: ((kind :: outer).map (fun _ => .type) ++ [.imports, .package]) := by
  cases h with
  | fresh => cases hs
  | package => cases hs
  | types => cases kinds <;> cases hs
  | method kind outer => exact ⟨kind, outer, rfl, rfl⟩

/-- **An operation that has a place leaves scopes that go together.** -/
theorem after {w : Writer} {op : Op} (h : Nested w.scopes w.kinds) (hadmits : w.Admits op) :
    Nested (w.after op).scopes (w.after op).kinds := by
  -- a method is opened in a type, and the type stays open around it
  have hmethod : w.scope = some .type → Nested (.method :: w.scopes) w.kinds := by
    intro hscope
    obtain ⟨kind, outer, hkinds, hscopes⟩ := h.of_head_type hscope
    rw [hkinds, hscopes]
    exact .method kind outer
  cases op with
  | package name =>
      have hscopes : w.scopes = [] := hadmits
      show Nested (.package :: w.scopes) w.kinds
      rw [hscopes, h.of_nil hscopes]
      exact .package
  | imports types =>
      obtain ⟨hscopes, hkinds⟩ := h.of_head_package hadmits
      show Nested (.imports :: w.scopes) w.kinds
      rw [hscopes, hkinds]
      exact .types []
  | openType heading =>
      show Nested (.type :: w.scopes) (heading.kind :: w.kinds)
      rcases hadmits with himports | htype
      · obtain ⟨hscopes, hkinds⟩ := h.of_head_imports himports
        rw [hscopes, hkinds]
        exact .types [heading.kind]
      · obtain ⟨kind, outer, hkinds, hscopes⟩ := h.of_head_type htype
        rw [hscopes, hkinds]
        exact .types (heading.kind :: kind :: outer)
  | closeType =>
      obtain ⟨kind, outer, hkinds, hscopes⟩ := h.of_head_type hadmits
      show Nested w.scopes.tail w.kinds.tail
      rw [hscopes, hkinds]
      exact .types outer
  | openMethod heading => exact hmethod hadmits.1
  | openConstructor heading => exact hmethod hadmits.2.1
  | closeMethod =>
      obtain ⟨kind, outer, hkinds, hscopes⟩ := h.of_head_method hadmits
      show Nested w.scopes.tail w.kinds
      rw [hscopes, hkinds]
      exact .types (kind :: outer)
  | field f => exact h
  | declareMethod heading => exact h
  | statement e => exact h
  | comment text => exact h
  | blankLine => exact h

end Nested

/-! ## Accepted and refused requests -/

/-- The writer after some requests, each of which it may have refused. -/
def afterAll (w : Writer) (ops : List Op) : Writer := ops.foldl (fun w op => (w.step op).1) w

/-- The requests that the writer accepts, of some that it gets one after the other. -/
def accepted (w : Writer) : List Op → List Op
  | [] => []
  | op :: ops =>
    match w.step op with
    | (w', .ok ()) => op :: w'.accepted ops
    | (w', .error _) => w'.accepted ops

/-- The headings of the types that are open, the innermost one first. -/
def Op.headingsAfter (headings : List TypeHeading) : Op → List TypeHeading
  | .openType h => h :: headings
  | .closeType => headings.tail
  | .package _ | .imports _ | .openMethod _ | .openConstructor _ | .closeMethod | .field _
  | .declareMethod _ | .statement _ | .comment _ | .blankLine => headings

/-- The headings of the types that operations open and do not close again. -/
def Op.openTypes (ops : List Op) : List TypeHeading := ops.foldl headingsAfter []

/-- **A request that is refused has had no effect.** -/
theorem eq_of_step_eq_error {w w' : Writer} {op : Op} {e : WriterError}
    (h : w.step op = (w', .error e)) : w' = w := by
  by_cases hadmits : w.Admits op
  · rw [step_of_admits hadmits] at h
    cases h
  · obtain ⟨e', he⟩ := step_of_not_admits hadmits
    rw [he] at h
    exact (Prod.mk.inj h).1.symm

/-- Requests come to what those of them come to that are accepted. -/
theorem applyAll_accepted (w : Writer) (ops : List Op) :
    w.applyAll (w.accepted ops) = .ok (w.afterAll ops) := by
  induction ops generalizing w with
  | nil => rfl
  | cons op ops ih =>
      show w.applyAll (w.accepted (op :: ops)) = .ok ((w.step op).1.afterAll ops)
      unfold accepted
      by_cases hadmits : w.Admits op
      · rw [step_of_admits hadmits]
        show w.applyAll (op :: _) = _
        rw [applyAll_cons_of_admits hadmits]
        exact ih _
      · obtain ⟨e, he⟩ := step_of_not_admits hadmits
        rw [he]
        exact ih w

/-- **The kinds are those of the types that are open.** -/
theorem kinds_of_applyAll {w w' : Writer} {ops : List Op} (h : w.applyAll ops = .ok w')
    {headings : List TypeHeading} (hw : w.kinds = headings.map (·.kind)) :
    w'.kinds = (ops.foldl Op.headingsAfter headings).map (·.kind) := by
  induction ops generalizing w headings with
  | nil => exact Except.ok.inj h ▸ hw
  | cons op ops ih =>
      obtain ⟨-, hrest⟩ := applyAll_cons_eq_ok_iff.mp h
      refine ih hrest ?_
      show op.kindsAfter w.kinds = _
      rw [hw]
      cases op with
      | closeType => exact List.map_tail.symm
      | _ => rfl

/-! ## What may be relied on -/

/-- There are as many bodies as types and methods. -/
theorem countP_isBody (scopes : List Scope) :
    scopes.countP (·.isBody) = scopes.count .type + scopes.count .method := by
  induction scopes with
  | nil => rfl
  | cons scope scopes ih =>
      rw [List.countP_cons, List.count_cons, List.count_cons, ih]
      cases scope <;> simp [Scope.isBody] <;> omega

/-- What is true of a writer that has got some requests and accepted some of them. -/
structure InOrder (w : Writer) (accepted : List Op) : Prop where
  /-- The stack of scopes has one of four shapes, and each type scope has its kind. -/
  nested : Nested w.scopes w.kinds
  /-- These are the kinds of the types that were opened and not closed. -/
  kinds : w.kinds = (Op.openTypes accepted).map (·.kind)
  /-- Whatever is asked next: if it is refused, it has changed nothing. -/
  refused : ∀ op e w', w.step op = (w', .error e) → w' = w
  /-- The file is finished if no body is open. -/
  finished : .type ∉ w.scopes → .method ∉ w.scopes → w.finish = .ok w.text
  /-- Otherwise, it is told how many are. -/
  unclosed : .type ∈ w.scopes ∨ .method ∈ w.scopes →
    w.finish = .error (.unclosed (w.scopes.count .type + w.scopes.count .method))

/--
**A writer stays in order whatever it is asked for.**

That goes for every series of requests to a new writer. The scopes, the kinds and
what a refusal leaves behind are all that a caller can go by.
-/
theorem inOrder_afterAll (ops : List Op) : (new.afterAll ops).InOrder (new.accepted ops) := by
  have hrun := new.applyAll_accepted ops
  generalize new.afterAll ops = w at hrun
  have hdepth : w.depth = w.scopes.count .type + w.scopes.count .method := countP_isBody w.scopes
  refine ⟨applyAll_induction (fun _ _ => Nested.after) hrun .fresh, kinds_of_applyAll hrun rfl,
    fun op e w' => eq_of_step_eq_error, ?_, ?_⟩
  · intro htype hmethod
    unfold finish
    rw [if_pos (by rw [hdepth, List.count_eq_zero.mpr htype, List.count_eq_zero.mpr hmethod])]
  · intro hopen
    have hpos : w.depth ≠ 0 := by
      rw [hdepth]
      rcases hopen with htype | hmethod
      · have := List.count_pos_iff.mpr htype
        omega
      · have := List.count_pos_iff.mpr hmethod
        omega
    unfold finish
    rw [if_neg hpos, hdepth]

end Writer

end TraitWeaver
