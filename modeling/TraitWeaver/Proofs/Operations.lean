import TraitWeaver.Source.Writer

/-!
# What an operation does

The operations of a writer are programs: each looks at the scopes that are open,
and then changes one thing after the other. What they come to can be said without
their course. An operation has a place in the writer or it has none
(`Writer.Admits`), and if it has one, each part of the writer becomes what
`Writer.after` says, whatever becomes of the other parts:

* the scopes, the kinds of the open types, the names, and what came last depend on
  nothing but what they were before;
* the lines grow, by a blank line that keeps members apart and by one line for each
  phrase of the operation, at the depth of the scope that it stands in.

`obeys_perform` says that the programs do this and nothing else. No other proof
looks at them.
-/

namespace TraitWeaver

/-! ## Lines of the head of a file -/

namespace Line

/-- The text on a line of code, without its indentation. -/
def code? : Line → Option String
  | blank => none
  | code _ text => some text

/-- The line with the package of a file, which the default package does not have. -/
def package (name : String) : List Line :=
  if name = "" then [] else [.code 0 s!"package {name};", .blank]

/-- The block of imports, or nothing if nothing is imported. -/
def imports (names : List DeclaredName) : List Line :=
  if names.isEmpty then [] else
    (names.map fun n => .code 0 s!"import {n.qualified};") ++ [.blank]

/-- The blank line between a member and what came last in the body. -/
def gap : Option MemberKind → MemberKind → List Line
  | none, _ | some .field, .field => []
  | _, _ => [.blank]

end Line

namespace Writer

namespace Op

/-! ## The parts of a writer -/

/-- The phrases that an operation in the body of a file is written as, one on each line. -/
def phrases : Op → List Phrase
  | .package _ | .imports _ | .blankLine => []
  | .openType h => [h.phrase ++ Phrase.word " \x7b"]
  | .closeType | .closeMethod => [Phrase.word "\x7d"]
  | .field f => [f.phrase ++ Phrase.word ";"]
  | .declareMethod h => h.annotationPhrases ++ [h.phrase ++ Phrase.word ";"]
  | .openMethod h | .openConstructor h => h.annotationPhrases ++ [h.phrase ++ Phrase.word " \x7b"]
  | .statement e => [e.phrase ++ Phrase.word ";"]
  | .comment text =>
    (Text.lines text).map fun line => Phrase.word (if line = "" then "//" else s!"// {line}")

/-- The kind of the member that begins with the operation. -/
def begins? : Op → Option MemberKind
  | .field _ => some .field
  | .openType _ | .declareMethod _ | .openMethod _ | .openConstructor _ => some .block
  | .package _ | .imports _ | .closeType | .statement _ | .closeMethod | .comment _
  | .blankLine => none

def scopesAfter (scopes : List Scope) : Op → List Scope
  | .package _ => .package :: scopes
  | .imports _ => .imports :: scopes
  | .openType _ => .type :: scopes
  | .openMethod _ | .openConstructor _ => .method :: scopes
  | .closeType | .closeMethod => scopes.tail
  | .field _ | .declareMethod _ | .statement _ | .comment _ | .blankLine => scopes

def kindsAfter (kinds : List TypeKind) : Op → List TypeKind
  | .openType h => h.kind :: kinds
  | .closeType => kinds.tail
  | .package _ | .imports _ | .openMethod _ | .openConstructor _ | .closeMethod | .field _
  | .declareMethod _ | .statement _ | .comment _ | .blankLine => kinds

def namesAfter (names : NameTable) : Op → NameTable
  | .package name => .empty name
  | .imports types => names.addAll types
  | .openType _ | .closeType | .openMethod _ | .openConstructor _ | .closeMethod | .field _
  | .declareMethod _ | .statement _ | .comment _ | .blankLine => names

def previousAfter (previous : Option MemberKind) : Op → Option MemberKind
  | .openType _ => none
  | .field _ => some .field
  | .declareMethod _ | .closeType | .closeMethod => some .block
  | .package _ | .imports _ | .openMethod _ | .openConstructor _ | .statement _ | .comment _
  | .blankLine => previous

/-- The scopes around the lines of the operation. A line that closes a scope is not in it. -/
def scopesAround (scopes : List Scope) : Op → List Scope
  | .closeType | .closeMethod => scopes.tail
  | .package _ | .imports _ | .openType _ | .openMethod _ | .openConstructor _ | .field _
  | .declareMethod _ | .statement _ | .comment _ | .blankLine => scopes

end Op

/-- The lines of code that an operation in the body of a file adds. -/
def codeLines (w : Writer) (op : Op) : List Line :=
  op.phrases.map fun p => .code ((op.scopesAround w.scopes).countP (·.isBody)) (w.names.spell p)

/-- What comes between an operation and what was written before it. -/
def gapBefore (w : Writer) (op : Op) : List Line :=
  match op.begins? with
  | some next => Line.gap w.previous next
  | none => []

/-- The lines that an operation adds. -/
def added (w : Writer) : Op → List Line
  | .package name => Line.package name
  | .imports types => Line.imports (w.names.addAll types).imports
  | .blankLine => [.blank]
  | op => w.gapBefore op ++ w.codeLines op

/-- The writer with some more lines. -/
def putAll (w : Writer) (lines : List Line) : Writer :=
  { w with lines := w.lines ++ lines.toArray }

/-- The writer after an operation that has a place in it. -/
def after (w : Writer) (op : Op) : Writer where
  lines := w.lines ++ (w.added op).toArray
  scopes := op.scopesAfter w.scopes
  kinds := op.kindsAfter w.kinds
  names := op.namesAfter w.names
  previous := op.previousAfter w.previous

/-- A method with a body has a place here. -/
def AdmitsMethod (w : Writer) (h : MethodHeading) : Prop :=
  w.scope = some .type ∧ (w.kinds.head? = some .interfaceType → .static ∈ h.keywords)

/-- The operation has a place in the writer as it is. -/
def Admits (w : Writer) : Op → Prop
  | .package _ => w.scopes = []
  | .imports _ => w.scope = some .package
  | .openType _ => w.scope = some .imports ∨ w.scope = some .type
  | .closeType | .field _ => w.scope = some .type
  | .declareMethod h => w.scope = some .type ∧ h.isConstructor = false
  | .openMethod h => w.AdmitsMethod h
  | .openConstructor h =>
    (h.isConstructor = true ∧ w.kinds.head? = some .classType) ∧ w.AdmitsMethod h
  | .statement _ | .closeMethod => w.scope = some .method
  | .comment _ | .blankLine => True

/-! ## Work under a condition -/

/-- Work that is admitted makes one writer of another; if it is not, it fails and leaves the writer
as it is. -/
structure Obeys (w : Writer) (work : WriterM Unit) (admitted : Prop) (w' : Writer) : Prop where
  done : admitted → work.run w = .ok () w'
  refused : ¬admitted → ∃ e, work.run w = .error e w

variable {w w' : Writer} {work : WriterM Unit} {admitted : Prop}

theorem run_require (admits : Writer → Bool) (operation expected : String) (w : Writer) :
    (require admits operation expected).run w =
      if admits w then .ok () w else .error (.illegalScope operation expected w.scope) w := by
  unfold require
  by_cases h : admits w = true
  · rw [if_pos h]
    show EStateM.run (unless admits w do throw _) w = _
    rw [if_pos h]
    rfl
  · rw [if_neg h]
    show EStateM.run (unless admits w do throw _) w = _
    rw [if_neg h]
    rfl

theorem obeys_of_run (h : work.run w = .ok () w') : Obeys w work True w' :=
  ⟨fun _ => h, fun hfalse => absurd trivial hfalse⟩

theorem Obeys.congr (h : Obeys w work admitted w') {admitted' : Prop} {w'' : Writer}
    (hiff : admitted' ↔ admitted) (hw : w' = w'') : Obeys w work admitted' w'' :=
  ⟨fun ha => hw ▸ h.done (hiff.mp ha), fun hn => h.refused fun ha => hn (hiff.mpr ha)⟩

/-- Before work that obeys a condition, another condition may be checked. -/
theorem Obeys.require (h : Obeys w work admitted w') (admits : Writer → Bool)
    (operation expected : String) :
    Obeys w (do Writer.require admits operation expected; work) (admits w = true ∧ admitted)
      w' := by
  have hrun : (do Writer.require admits operation expected; work).run w =
      if admits w then work.run w
      else .error (.illegalScope operation expected w.scope) w := by
    have hrequire := run_require admits operation expected w
    show EStateM.bind _ _ w = _
    unfold EStateM.bind
    unfold EStateM.run at hrequire
    rw [hrequire]
    by_cases hw : admits w = true
    · rw [if_pos hw, if_pos hw]
      rfl
    · rw [if_neg hw, if_neg hw]
  refine ⟨?_, ?_⟩
  · rintro ⟨hw, ha⟩
    rw [hrun, if_pos hw]
    exact h.done ha
  · intro hn
    rw [hrun]
    by_cases hw : admits w = true
    · rw [if_pos hw]
      exact h.refused fun ha => hn ⟨hw, ha⟩
    · rw [if_neg hw]
      exact ⟨_, rfl⟩

/-- Work that is preceded by one check is admitted exactly if the check succeeds. -/
theorem obeys_require {admits : Writer → Bool} {operation expected : String}
    (h : work.run w = .ok () w') (hiff : admitted ↔ admits w = true) :
    Obeys w (do require admits operation expected; work) admitted w' :=
  ((obeys_of_run h).require admits operation expected).congr
    (hiff.trans (and_iff_left trivial).symm) rfl

/-! ## Lines that are written -/

theorem spell_word (r : NameTable) (text : String) : r.spell (Phrase.word text) = text := by
  show String.join [text] = text
  simp [String.join]

theorem putAll_nil (w : Writer) : w.putAll [] = w :=
  congrArg (Writer.mk · w.scopes w.kinds w.names w.previous) Array.append_empty

theorem putAll_putAll (w : Writer) (lines lines' : List Line) :
    (w.putAll lines).putAll lines' = w.putAll (lines ++ lines') := by
  unfold putAll
  rw [← List.append_toArray, Array.append_assoc]

theorem put_eq_putAll (w : Writer) (line : Line) : w.put line = w.putAll [line] := by
  unfold put putAll
  rw [Array.push_eq_append]

theorem keepApart_eq_putAll (w : Writer) (next : MemberKind) :
    w.keepApart next = w.putAll (Line.gap w.previous next) := by
  unfold keepApart Line.gap
  cases w.previous with
  | none => exact w.putAll_nil.symm
  | some last =>
      cases last with
      | block => exact w.put_eq_putAll .blank
      | field =>
          cases next with
          | field => exact w.putAll_nil.symm
          | block => exact w.put_eq_putAll .blank

theorem foldl_put (lines : List Line) (w : Writer) : lines.foldl put w = w.putAll lines := by
  induction lines generalizing w with
  | nil => exact w.putAll_nil.symm
  | cons line rest ih =>
      rw [List.foldl_cons, ih, put_eq_putAll, putAll_putAll, List.singleton_append]

/-- Lines that are written one by one at the depth of the innermost scope. -/
theorem foldl_putCode {α : Type} (text : α → String) (as : List α) (w : Writer) :
    as.foldl (fun w a => w.putCode (text a)) w =
      w.putAll (as.map fun a => .code w.depth (text a)) := by
  -- writing a line does not change the depth
  have h : ∀ v : Writer, v.depth = w.depth → as.foldl (fun w a => w.putCode (text a)) v =
      v.putAll (as.map fun a => .code w.depth (text a)) := by
    induction as with
    | nil => exact fun v _ => v.putAll_nil.symm
    | cons a rest ih =>
        intro v hv
        rw [List.foldl_cons, ih (v.putCode (text a)) hv, putCode, hv, put_eq_putAll, putAll_putAll]
        rfl
  exact h w rfl

theorem foldl_putPhrase (ps : List Phrase) (w : Writer) :
    ps.foldl putPhrase w = w.putAll (ps.map fun p => .code w.depth (w.names.spell p)) := by
  rw [← foldl_putCode]
  -- nor does it change the names
  have h : ∀ v : Writer, v.names = w.names →
      ps.foldl putPhrase v = ps.foldl (fun v p => v.putCode (w.names.spell p)) v := by
    induction ps with
    | nil => exact fun _ _ => rfl
    | cons p rest ih =>
        intro v hv
        rw [List.foldl_cons, List.foldl_cons, putPhrase, hv]
        exact ih _ hv
  exact h w rfl

theorem putPhrase_keepApart (w : Writer) (next : MemberKind) (p : Phrase) :
    (w.keepApart next).putPhrase p =
      w.putAll (Line.gap w.previous next ++ [.code w.depth (w.names.spell p)]) := by
  rw [keepApart_eq_putAll, putPhrase, putCode, put_eq_putAll, putAll_putAll]
  rfl

theorem putMethod_eq_putAll (w : Writer) (h : MethodHeading) (terminator : String) :
    w.putMethod h terminator = w.putAll (Line.gap w.previous .block ++
      (h.annotationPhrases ++ [h.phrase ++ Phrase.word terminator]).map fun p =>
        .code w.depth (w.names.spell p)) := by
  rw [putMethod, keepApart_eq_putAll, foldl_putPhrase, putPhrase, putCode, put_eq_putAll,
    putAll_putAll, putAll_putAll, List.map_append]
  rfl

/-! ## The operations -/

/-- Work that only changes the writer. -/
theorem run_modify_bind (f : Writer → Writer) (work : WriterM Unit) (w : Writer) :
    (do modify f; work).run w = work.run (f w) := rfl

theorem obeys_package (w : Writer) (name : String) :
    Obeys w (package name) (w.scopes = []) (w.after (.package name)) := by
  refine obeys_require ?_ List.isEmpty_iff.symm
  have hafter : w.after (.package name) =
      { w.putAll (Line.package name) with names := .empty name }.enter .package := rfl
  rw [hafter]
  unfold Line.package
  by_cases hn : name = ""
  · rw [if_pos hn, if_pos hn, putAll_nil]
    rfl
  · rw [if_neg hn, if_neg hn]
    show EStateM.Result.ok () ({ (w.put _).put _ with names := .empty name }.enter .package) = _
    rw [put_eq_putAll, put_eq_putAll, putAll_putAll]
    rfl

theorem obeys_imports (w : Writer) (types : List DeclaredName) :
    Obeys w (imports types) (w.scope = some .package) (w.after (.imports types)) := by
  refine obeys_require ?_ decide_eq_true_iff.symm
  have hafter : w.after (.imports types) =
      ({ w with names := w.names.addAll types }.putAll
        (Line.imports (w.names.addAll types).imports)).enter .imports := rfl
  have hnames : w.names.addAll types = { w with names := w.names.addAll types }.names := rfl
  rw [hafter, run_modify_bind, hnames]
  generalize { w with names := w.names.addAll types } = v
  -- what is imported is asked of the writer that knows the types already
  show EStateM.run (do
    unless v.names.imports.isEmpty do modify (·.put .blank)
    modify (·.enter .imports)) (v.names.imports.foldl _ v) = _
  have hput : v.names.imports.foldl (fun w n => w.put (.code 0 s!"import {n.qualified};")) v =
      v.putAll (v.names.imports.map fun n => .code 0 s!"import {n.qualified};") := by
    rw [← foldl_put, List.foldl_map]
  rw [hput]
  unfold Line.imports
  by_cases hi : v.names.imports.isEmpty = true
  · rw [if_pos hi, if_pos hi, List.isEmpty_iff.mp hi]
    rfl
  · rw [if_neg hi, if_neg hi, ← putAll_putAll, ← put_eq_putAll]
    rfl

theorem obeys_openMethod (w : Writer) (h : MethodHeading) :
    Obeys w (openMethod h) (w.AdmitsMethod h) (w.after (.openMethod h)) := by
  refine obeys_require ?_ ?_
  · rw [run_modify_bind, putMethod_eq_putAll]
    rfl
  · simp only [AdmitsMethod, Bool.and_eq_true, Bool.or_eq_true, Bool.not_eq_true',
      decide_eq_true_iff, decide_eq_false_iff_not, List.contains_iff_mem, Decidable.imp_iff_not_or]

theorem codeLines_comment (w : Writer) (text : String) :
    w.codeLines (.comment text) = (Text.lines text).map fun line =>
      .code w.depth (if line = "" then "//" else s!"// {line}") := by
  unfold codeLines Op.phrases
  rw [List.map_map]
  exact List.map_congr_left fun line _ => congrArg _ (spell_word w.names _)

/-- **An operation does what `after` says if it has a place, and nothing at all if it has none.** -/
theorem obeys_perform (w : Writer) (op : Op) :
    Obeys w op.perform (w.Admits op) (w.after op) := by
  have hscope : ∀ s : Scope, w.scope = some s ↔ decide (w.scope = some s) = true :=
    fun _ => decide_eq_true_iff.symm
  cases op with
  | package name => exact w.obeys_package name
  | imports types => exact w.obeys_imports types
  | openType h =>
      refine obeys_require ?_ ?_
      · rw [run_modify_bind, run_modify_bind, putPhrase_keepApart]
        rfl
      · rw [Bool.or_eq_true, ← hscope, ← hscope]
        rfl
  | closeType =>
      refine obeys_require ?_ (hscope .type)
      show EStateM.Result.ok () (leave { w with kinds := w.kinds.tail }) = _
      rw [leave, putCode, put_eq_putAll]
      rfl
  | field f =>
      refine obeys_require ?_ (hscope .type)
      rw [run_modify_bind, run_modify_bind, putPhrase_keepApart]
      rfl
  | declareMethod h =>
      refine obeys_require ?_ ?_
      · rw [run_modify_bind, putMethod_eq_putAll]
        rfl
      · rw [Bool.and_eq_true, ← hscope, Bool.not_eq_true']
        rfl
  | openMethod h => exact w.obeys_openMethod h
  | openConstructor h =>
      -- what is checked for a constructor comes before what is checked for every method
      refine ((w.obeys_openMethod h).require _ _ _).congr ?_ rfl
      rw [Bool.and_eq_true, decide_eq_true_iff]
      rfl
  | statement e =>
      refine obeys_require ?_ (hscope .method)
      show EStateM.Result.ok () (w.put _) = _
      rw [put_eq_putAll]
      rfl
  | closeMethod =>
      refine obeys_require ?_ (hscope .method)
      show EStateM.Result.ok () w.leave = _
      rw [leave, putCode, put_eq_putAll]
      rfl
  | comment text =>
      refine obeys_of_run ?_
      show EStateM.Result.ok () ((Text.lines text).foldl _ w) = _
      rw [foldl_putCode, ← codeLines_comment]
      rfl
  | blankLine =>
      refine obeys_of_run ?_
      show EStateM.Result.ok () (w.put .blank) = _
      rw [put_eq_putAll]
      rfl

/-! ## One step, and many -/

theorem step_of_admits {op : Op} (h : w.Admits op) : w.step op = (w.after op, .ok ()) := by
  unfold step
  rw [(w.obeys_perform op).done h]

theorem step_of_not_admits {op : Op} (h : ¬w.Admits op) : ∃ e, w.step op = (w, .error e) := by
  obtain ⟨e, he⟩ := (w.obeys_perform op).refused h
  refine ⟨e, ?_⟩
  unfold step
  rw [he]

/-- **The writer accepts exactly what has a place.** -/
theorem apply_eq_ok_iff {op : Op} : w.apply op = .ok w' ↔ w.Admits op ∧ w.after op = w' := by
  unfold apply
  by_cases h : w.Admits op
  · rw [step_of_admits h, and_iff_right h]
    exact ⟨Except.ok.inj, congrArg Except.ok⟩
  · obtain ⟨e, he⟩ := step_of_not_admits h
    rw [he]
    refine iff_of_false ?_ fun hn => h hn.1
    rintro ⟨⟩

theorem applyAll_append (w : Writer) (ops ops' : List Op) :
    w.applyAll (ops ++ ops') = w.applyAll ops >>= fun w' => w'.applyAll ops' :=
  List.foldlM_append

/-- A run can be cut in two. -/
theorem exists_of_applyAll_append {ops ops' : List Op} (h : w.applyAll (ops ++ ops') = .ok w') :
    ∃ v, w.applyAll ops = .ok v ∧ v.applyAll ops' = .ok w' := by
  rw [applyAll_append] at h
  cases hv : w.applyAll ops with
  | error e =>
      rw [hv] at h
      cases h
  | ok v =>
      rw [hv] at h
      exact ⟨v, rfl, h⟩

theorem applyAll_cons_of_admits {op : Op} (h : w.Admits op) (ops : List Op) :
    w.applyAll (op :: ops) = (w.after op).applyAll ops := by
  unfold applyAll
  rw [List.foldlM_cons, apply_eq_ok_iff.mpr ⟨h, rfl⟩]
  rfl

theorem applyAll_cons_of_not_admits {op : Op} (h : ¬w.Admits op) (ops : List Op) :
    ∃ e, w.applyAll (op :: ops) = .error e := by
  unfold applyAll
  rw [List.foldlM_cons]
  cases ha : w.apply op with
  | error e => exact ⟨e, rfl⟩
  | ok v => exact absurd (apply_eq_ok_iff.mp ha).1 h

/-- A series of operations is accepted if each of them has a place after those before it. -/
theorem applyAll_cons_eq_ok_iff {op : Op} {ops : List Op} :
    w.applyAll (op :: ops) = .ok w' ↔ w.Admits op ∧ (w.after op).applyAll ops = .ok w' := by
  by_cases h : w.Admits op
  · rw [applyAll_cons_of_admits h, and_iff_right h]
  · obtain ⟨e, he⟩ := applyAll_cons_of_not_admits h ops
    rw [he]
    refine iff_of_false ?_ fun hn => h hn.1
    rintro ⟨⟩

/-- What every operation that has a place preserves is preserved by a series of operations. -/
theorem applyAll_induction {motive : Writer → Prop}
    (hstep : ∀ (w : Writer) (op : Op), motive w → w.Admits op → motive (w.after op))
    {ops : List Op} (h : w.applyAll ops = .ok w') (hw : motive w) : motive w' := by
  induction ops generalizing w with
  | nil => exact Except.ok.inj h ▸ hw
  | cons op ops ih =>
      obtain ⟨hadmits, hrest⟩ := applyAll_cons_eq_ok_iff.mp h
      exact ih hrest (hstep w op hw hadmits)

end Writer

end TraitWeaver
