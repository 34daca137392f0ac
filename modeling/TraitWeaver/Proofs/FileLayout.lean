import TraitWeaver.Proofs.Layout

/-!
# What a reader sees of the layout

Here the layout is stated without the writer, for the text of a finished file and
the series of operations that it was written by:

* its braces are balanced, from the first character to the last;
* its lines are blank, or they are the written texts one after the other, each
  indented by four blanks for every brace that is open where the line starts;
* two members that were written one right after the other have one blank line
  between them unless both are fields, and a body does not begin with one. All that
  can come between two members are comments, and blank lines that were asked for.
-/

namespace TraitWeaver

open Line

/-! ## Texts that are written -/

namespace Writer

/-- The texts that an operation writes, each on a line. -/
def Op.written (names : NameTable) : Op → List String
  | .package name => if name = "" then [] else [s!"package {name};"]
  | .imports types => (names.addAll types).imports.map fun n => s!"import {n.qualified};"
  | op => op.phrases.map names.spell

/-- The texts that several operations write one after the other. -/
def Op.writtenFrom (names : NameTable) : List Op → List String
  | [] => []
  | op :: ops => op.written names ++ writtenFrom (op.namesAfter names) ops

/-- The texts that a new file is written with. -/
def Op.writtenAll (ops : List Op) : List String := writtenFrom (.empty "") ops

/-- The kind of the member that ends with the operation. -/
def Op.ends? : Op → Option MemberKind
  | .field _ => some .field
  | .declareMethod _ | .closeMethod | .closeType => some .block
  | .package _ | .imports _ | .openType _ | .openMethod _ | .openConstructor _ | .statement _
  | .comment _ | .blankLine => none

variable {w w' : Writer} {op : Op} {ops ops' : List Op}

theorem filterMap_added_eq_written (w : Writer) (op : Op) :
    (w.added op).filterMap Line.code? = op.written w.names := by
  cases op with
  | package name =>
      show (Line.package name).filterMap Line.code? = if name = "" then [] else _
      unfold Line.package
      split
      · rfl
      · rfl
  | imports types =>
      show (Line.imports (w.names.addAll types).imports).filterMap Line.code? =
        (w.names.addAll types).imports.map _
      generalize (w.names.addAll types).imports = names
      unfold Line.imports
      split
      · rename_i hempty
        rw [List.isEmpty_iff.mp hempty]
        rfl
      · rw [List.filterMap_append, List.filterMap_map]
        exact (List.append_nil _).trans (congrFun List.filterMap_eq_map names)
  | _ => exact filterMap_added rfl w

/-- **What is on the lines of code is what the operations write.** -/
theorem code_of_applyAll (h : w.applyAll ops = .ok w') :
    w'.code = w.code ++ Op.writtenFrom w.names ops := by
  induction ops generalizing w with
  | nil => rw [Except.ok.inj h, Op.writtenFrom, List.append_nil]
  | cons op ops ih =>
      obtain ⟨-, hrest⟩ := applyAll_cons_eq_ok_iff.mp h
      have hcode : (w.after op).code = w.code ++ op.written w.names := by
        unfold code after
        rw [Array.toList_append, List.filterMap_append, filterMap_added_eq_written]
      rw [ih hrest, hcode, Op.writtenFrom, List.append_assoc]
      rfl

theorem exists_lines_of_applyAll (h : w.applyAll ops = .ok w') :
    ∃ more, w'.lines.toList = w.lines.toList ++ more := by
  induction ops generalizing w with
  | nil => exact ⟨[], by rw [Except.ok.inj h, List.append_nil]⟩
  | cons op ops ih =>
      obtain ⟨-, hrest⟩ := applyAll_cons_eq_ok_iff.mp h
      obtain ⟨more, hmore⟩ := ih hrest
      refine ⟨w.added op ++ more, ?_⟩
      rw [hmore, ← List.append_assoc]
      exact congrArg (· ++ more) Array.toList_append

/-- An operation that writes phrases writes nothing else but a gap before them. -/
theorem added_eq (w : Writer) (h : op.phrases ≠ []) :
    w.added op = w.gapBefore op ++ w.codeLines op := by
  cases op with
  | package name => exact absurd rfl h
  | imports types => exact absurd rfl h
  | blankLine => exact absurd rfl h
  | _ => rfl

theorem phrases_ne_nil_of_begins (h : op.begins?.isSome) : op.phrases ≠ [] := by
  cases op with
  | openType | field => exact List.cons_ne_nil _ _
  | declareMethod | openMethod | openConstructor =>
      exact List.append_ne_nil_of_right_ne_nil _ (List.cons_ne_nil _ _)
  | package | imports | closeType | statement | closeMethod | comment | blankLine => cases h

theorem phrases_ne_nil_of_ends (h : op.ends?.isSome) : op.phrases ≠ [] := by
  cases op with
  | closeType | closeMethod | field => exact List.cons_ne_nil _ _
  | declareMethod => exact List.append_ne_nil_of_right_ne_nil _ (List.cons_ne_nil _ _)
  | package | imports | openType | openMethod | openConstructor | statement | comment
  | blankLine => cases h

end Writer

/-! ## What is read -/

/-- How many braces are open after some lines. -/
def openBraces (lines : List String) : Nat :=
  (lines.flatMap (·.toList)).count '\x7b' - (lines.flatMap (·.toList)).count '\x7d'

/-- There are `n` blank lines between the `k`-th of the lines that are not blank and the next. -/
def Apart (lines : List String) (k n : Nat) : Prop :=
  ∃ before last next after, lines = before ++ last :: (List.replicate n "" ++ next :: after)
    ∧ last ≠ "" ∧ next ≠ "" ∧ before.countP (· ≠ "") + 1 = k

open Writer

/-- The text of a file is laid out as a reader expects it from the operations that wrote it. -/
structure LaidOut (ops : List Op) (text : String) : Prop where
  /-- No beginning of the text closes more braces than it opens. -/
  closed_le : ∀ p, p <+: text.toList → p.count '\x7d' ≤ p.count '\x7b'
  /-- In the end all are closed. -/
  closed_eq : text.toList.count '\x7d' = text.toList.count '\x7b'
  /-- There is a line for each text that is written. -/
  length_eq : (Text.pieces '\n' text).countP (· ≠ "") = (Op.writtenAll ops).length
  /-- Every other line is blank, and this one is indented by the braces that are open before it. -/
  indented : ∀ before line after, Text.pieces '\n' text = before ++ line :: after → line ≠ "" →
    ∃ t, (Op.writtenAll ops)[before.countP (· ≠ "")]? = some t
      ∧ line = "".pushn ' ' (4 * depthOf (openBraces before) t) ++ t
  /-- After the heading of a type, or a member, the next member follows, unless the type ends or
  there is a comment or a blank line of its own. -/
  follows : ∀ pre op op' post, ops = pre ++ op :: op' :: post →
    op.ends?.isSome ∨ (∃ heading, op = .openType heading) →
    op'.begins?.isSome ∨ op' = .closeType ∨ (∃ comment, op' = .comment comment) ∨ op' = .blankLine
  /-- There is no blank line before the first member of a type. -/
  first : ∀ pre heading op post, ops = pre ++ .openType heading :: op :: post →
    op.begins?.isSome →
    Apart (Text.pieces '\n' text) (Op.writtenAll (pre ++ [.openType heading])).length 0
  /-- There is one between two members, unless both are fields. -/
  apart : ∀ pre op op' post last next, ops = pre ++ op :: op' :: post → op.ends? = some last →
    op'.begins? = some next →
    Apart (Text.pieces '\n' text) (Op.writtenAll (pre ++ [op])).length
      (if last = .field ∧ next = .field then 0 else 1)

namespace Line.Laid

variable {d d' : Nat} {lines : List Line}

theorem countP_shown (h : ∀ l ∈ lines, l.shown ≠ "" ↔ l.code?.isSome) :
    (lines.map shown).countP (· ≠ "") = (lines.filterMap code?).length := by
  rw [List.countP_map, List.length_filterMap_eq_countP]
  exact List.countP_congr fun l hl => decide_eq_true_iff.trans (h l hl)

theorem openBraces_eq (h : Laid 0 lines d) : openBraces (lines.map shown) = d := by
  have hcount := count_of_openAfter (h.openAfter_flatMap List.not_mem_nil List.not_mem_nil)
  simp only [List.append_nil] at hcount
  unfold openBraces
  rw [List.flatMap_map]
  omega

/-- A line that is read is one that is laid, with the same lines before it. -/
theorem exists_of_pieces {before after : List String} {line : String} (h : Laid 0 lines d)
    (hpieces : Text.pieces '\n' (textOf lines) = before ++ line :: after) (hline : line ≠ "") :
    ∃ laid m text rest, lines = laid ++ Line.code (depthOf m text) text :: rest
      ∧ Laid 0 laid m ∧ laid.map shown = before
      ∧ (Line.code (depthOf m text) text).shown = line := by
  rw [h.pieces_textOf] at hpieces
  rcases List.append_eq_append_iff.mp hpieces with ⟨more, -, hend⟩ | ⟨more, hlines, hend⟩
  · -- behind the last line there is nothing
    cases more with
    | nil => exact absurd (List.cons.inj hend).1.symm hline
    | cons m more => cases more <;> cases hend
  · cases more with
    | nil => exact absurd (List.cons.inj hend).1 hline
    | cons m more =>
        obtain rfl := (List.cons.inj hend).1
        obtain ⟨laid, tail, rfl, hbefore, htail⟩ := List.map_eq_append_iff.mp hlines
        obtain ⟨l, rest, rfl, hl, -⟩ := List.map_eq_cons_iff.mp htail
        cases l with
        | blank => exact absurd hl.symm hline
        | code depth text =>
            obtain ⟨m, hlaid, rfl⟩ := h.split
            exact ⟨laid, m, text, rest, rfl, hlaid, hbefore, hl⟩

/-- **What is read on a line is indented by the braces that are read before it.** -/
theorem exists_indented {before after : List String} {line : String} (h : Laid 0 lines d)
    (hpieces : Text.pieces '\n' (textOf lines) = before ++ line :: after) (hline : line ≠ "") :
    ∃ t, (lines.filterMap code?)[before.countP (· ≠ "")]? = some t
      ∧ line = "".pushn ' ' (4 * depthOf (openBraces before) t) ++ t := by
  obtain ⟨laid, m, text, rest, rfl, hlaid, rfl, rfl⟩ := h.exists_of_pieces hpieces hline
  refine ⟨text, ?_, ?_⟩
  · rw [countP_shown fun l hl => h.shown_ne_iff l (List.mem_append_left _ hl),
      List.filterMap_append, List.getElem?_append_right (Nat.le_refl _), Nat.sub_self]
    rfl
  · rw [hlaid.openBraces_eq]
    rfl

end Line.Laid

namespace Writer

variable {w w' : Writer} {op op' : Op} {ops : List Op}

/-! ### Members -/

/-- Beside members, there are few things that have a place in a type. -/
theorem begins_of_admits (hscope : w.scope = some .type ∨ w.scope = some .imports)
    (hadmits : w.Admits op) :
    op.begins?.isSome ∨ op = .closeType ∨ (∃ text, op = .comment text) ∨ op = .blankLine := by
  have hnot : ∀ scope, scope ≠ .type → scope ≠ .imports → w.scope ≠ some scope := by
    rintro scope htype himports hs
    rw [hs, Option.some.injEq, Option.some.injEq] at hscope
    exact hscope.elim htype himports
  cases op with
  | openType | field | declareMethod | openMethod | openConstructor => exact Or.inl rfl
  | closeType => exact Or.inr (Or.inl rfl)
  | comment text => exact Or.inr (Or.inr (Or.inl ⟨text, rfl⟩))
  | blankLine => exact Or.inr (Or.inr (Or.inr rfl))
  | package name =>
      have hscopes : w.scopes = [] := hadmits
      unfold scope at hscope
      rw [hscopes] at hscope
      rcases hscope with h | h <;> cases h
  | imports types => exact absurd hadmits (hnot .package (by decide) (by decide))
  | statement e => exact absurd hadmits (hnot .method (by decide) (by decide))
  | closeMethod => exact absurd hadmits (hnot .method (by decide) (by decide))

/-- After the heading of a type, or a member, a type is open, or none is any more. -/
theorem scope_after (hnested : Nested w.scopes w.kinds) (hadmits : w.Admits op)
    (h : op.ends?.isSome ∨ ∃ heading, op = .openType heading) :
    (w.after op).scope = some .type ∨ (w.after op).scope = some .imports := by
  rcases h with h | ⟨heading, rfl⟩
  · cases op with
    | field f => exact Or.inl hadmits
    | declareMethod heading => exact Or.inl hadmits.1
    | closeType =>
        obtain ⟨kind, outer, -, hscopes⟩ := hnested.of_head_type hadmits
        show w.scopes.tail.head? = _ ∨ w.scopes.tail.head? = _
        rw [hscopes]
        cases outer with
        | nil => exact Or.inr rfl
        | cons => exact Or.inl rfl
    | closeMethod =>
        obtain ⟨kind, outer, -, hscopes⟩ := hnested.of_head_method hadmits
        show w.scopes.tail.head? = _ ∨ w.scopes.tail.head? = _
        rw [hscopes]
        exact Or.inl rfl
    | package | imports | openType | openMethod | openConstructor | statement | comment
    | blankLine => cases h
  · exact Or.inl rfl

/-! ### What keeps members apart -/

theorem codeLines_ne_nil (w : Writer) (h : op.phrases ≠ []) : w.codeLines op ≠ [] :=
  List.map_eq_nil_iff.not.mpr h

theorem isSome_of_mem_codeLines (w : Writer) (op : Op) {l : Line} (h : l ∈ w.codeLines op) :
    l.code?.isSome := by
  obtain ⟨p, -, rfl⟩ := List.mem_map.mp h
  rfl

theorem gapBefore_of_begins {next : MemberKind} (h : op.begins? = some next) :
    w.gapBefore op = Line.gap w.previous next := by
  unfold gapBefore
  rw [h]

/-- What came last is the member that has just ended. -/
theorem previous_of_ends {last : MemberKind} (h : op.ends? = some last) :
    (w.after op).previous = some last := by
  cases op with
  | closeType | closeMethod | field | declareMethod => exact h
  | package | imports | openType | openMethod | openConstructor | statement | comment
  | blankLine => cases h

theorem gap_some (last next : MemberKind) : Line.gap (some last) next =
    List.replicate (if last = .field ∧ next = .field then 0 else 1) .blank := by
  cases last <;> cases next <;> rfl

/-- **What stands between two operations is what keeps them apart.** -/
theorem apart_of_applyAll {pre post : List Op} {n : Nat} {d : Nat}
    (hrun : new.applyAll (pre ++ op :: op' :: post) = .ok w) (hlaid : Laid 0 w.lines.toList d)
    (hop : op.phrases ≠ []) (hop' : op'.phrases ≠ [])
    (hgap : ∀ v : Writer, (v.after op).gapBefore op' = List.replicate n .blank) :
    Apart (Text.pieces '\n' w.text) (Op.writtenAll (pre ++ [op])).length n := by
  obtain ⟨v, hpre, hrest⟩ := exists_of_applyAll_append hrun
  obtain ⟨hadmits, hrest⟩ := applyAll_cons_eq_ok_iff.mp hrest
  obtain ⟨hadmits', hrest⟩ := applyAll_cons_eq_ok_iff.mp hrest
  obtain ⟨more, hmore⟩ := exists_lines_of_applyAll hrest
  -- the last line of the one operation, and the first one of the other
  obtain ⟨ls, last, hlast⟩ := (List.eq_nil_or_concat (v.codeLines op)).resolve_left
    (v.codeLines_ne_nil hop)
  obtain ⟨next, ls', hnext⟩ := List.exists_cons_of_ne_nil ((v.after op).codeLines_ne_nil hop')
  generalize hbefore : v.lines.toList ++ v.gapBefore op ++ ls = before
  have hlines : (v.after op).lines.toList = before ++ [last] := by
    show (v.lines ++ (v.added op).toArray).toList = _
    rw [Array.toList_append, v.added_eq hop, hlast, List.concat_eq_append, ← hbefore]
    simp only [List.append_assoc]
  have hall : w.lines.toList =
      before ++ last :: (List.replicate n .blank ++ next :: (ls' ++ more)) := by
    rw [hmore]
    show ((v.after op).lines ++ ((v.after op).added op').toArray).toList ++ more = _
    rw [Array.toList_append, (v.after op).added_eq hop', hlines, hgap, hnext]
    simp only [List.append_assoc, List.cons_append, List.nil_append]
  have hshown := hlaid.shown_ne_iff
  rw [hall] at hshown
  have hlast' : last.shown ≠ "" := by
    refine (hshown last (by simp)).mpr (v.isSome_of_mem_codeLines op ?_)
    rw [hlast, List.concat_eq_append]
    exact List.mem_append_right _ List.mem_cons_self
  have hnext' : next.shown ≠ "" := by
    refine (hshown next (by simp)).mpr ((v.after op).isSome_of_mem_codeLines op' ?_)
    rw [hnext]
    exact List.mem_cons_self
  refine ⟨before.map shown, last.shown, next.shown, (ls' ++ more).map shown ++ [""], ?_, hlast',
    hnext', ?_⟩
  · show Text.pieces '\n' (textOf w.lines.toList) = _
    rw [hlaid.pieces_textOf, hall]
    simp only [List.map_append, List.map_cons, List.map_replicate, List.append_assoc,
      List.cons_append, shown]
  · have hrun' : new.applyAll (pre ++ [op]) = .ok (v.after op) := by
      rw [applyAll_append, hpre]
      exact applyAll_cons_of_admits hadmits []
    have hcode : (v.after op).code = Op.writtenAll (pre ++ [op]) := code_of_applyAll hrun'
    have hcount := Laid.countP_shown fun l (hl : l ∈ before ++ [last]) =>
      hshown l (List.append_cons .. ▸ List.mem_append_left _ hl)
    rw [List.map_append, List.countP_append, List.map_singleton, List.countP_singleton,
      if_pos (decide_eq_true hlast')] at hcount
    rw [hcount, ← hlines, ← hcode]
    rfl

/-- A file is finished after a run in which everything was accepted and everything was closed. -/
theorem exists_of_finish {text : String} (h : new.applyAll ops >>= finish = .ok text) :
    ∃ w, new.applyAll ops = .ok w ∧ w.depth = 0 ∧ w.text = text := by
  cases hw : new.applyAll ops with
  | error e =>
      rw [hw] at h
      cases h
  | ok w =>
      rw [hw] at h
      have hfinish : w.finish = .ok text := h
      unfold finish at hfinish
      split at hfinish
      · rename_i hclosed
        exact ⟨w, rfl, hclosed, Except.ok.inj hfinish⟩
      · cases hfinish

/--
**Every finished file is laid out.**

Whatever operations it was written by: if all of them were accepted and no body was
left open, and if the texts in them hold neither braces nor line feeds. (They may
well hold blanks.)
-/
theorem laidOut_of_finish {text : String} (hplain : ∀ op ∈ ops, Plain op.given)
    (hfinish : new.applyAll ops >>= finish = .ok text) : LaidOut ops text := by
  obtain ⟨w, hrun, hclosed, rfl⟩ := exists_of_finish hfinish
  have hlaid := (Tidy.new.applyAll hplain hrun).laid
  rw [hclosed] at hlaid
  have hcode : w.code = Op.writtenAll ops := code_of_applyAll hrun
  have hbraces : openAfter 0 w.text.toList = some 0 := by
    unfold Writer.text
    rw [toList_textOf]
    exact hlaid.openAfter_flatMap (by decide) (by decide)
  refine ⟨fun p hp => ?_, ?_, ?_, ?_, ?_, ?_, ?_⟩
  · have := closed_le_of_prefix hbraces hp
    rwa [Nat.zero_add] at this
  · have := count_of_openAfter hbraces
    omega
  · unfold Writer.text
    rw [hlaid.pieces_textOf, List.countP_append, Laid.countP_shown hlaid.shown_ne_iff, ← hcode]
    rfl
  · intro before line after hpieces hline
    rw [← hcode]
    exact hlaid.exists_indented hpieces hline
  · intro pre op op' post hops hends
    obtain ⟨v, hpre, hrest⟩ := exists_of_applyAll_append (hops ▸ hrun)
    obtain ⟨hadmits, hrest⟩ := applyAll_cons_eq_ok_iff.mp hrest
    have hnested : Nested v.scopes v.kinds :=
      applyAll_induction (fun _ _ => Nested.after) hpre .fresh
    exact begins_of_admits (scope_after hnested hadmits hends) (applyAll_cons_eq_ok_iff.mp hrest).1
  · intro pre heading op post hops hbegins
    obtain ⟨next, hnext⟩ := Option.isSome_iff_exists.mp hbegins
    exact apart_of_applyAll (hops ▸ hrun) hlaid (List.cons_ne_nil _ _)
      (phrases_ne_nil_of_begins hbegins) fun v => gapBefore_of_begins hnext
  · intro pre op op' post last next hops hends hbegins
    refine apart_of_applyAll (hops ▸ hrun) hlaid (phrases_ne_nil_of_ends (by rw [hends]; rfl))
      (phrases_ne_nil_of_begins (by rw [hbegins]; rfl)) fun v => ?_
    rw [gapBefore_of_begins hbegins, previous_of_ends hends, gap_some]

/-- A class with two fields, a method and an interface. -/
def boxOps : List Op :=
  let item : TypeRef := .declared ⟨"lib", "Item"⟩ [] .scalar
  let items : TypeRef := .declared ⟨"lib", "Item"⟩ [] ⟨1, false⟩
  [.package "app", .imports [⟨"lib", "Item"⟩], .openType (.ofClass "Box"),
    .field ⟨[.private], items, "items", some (.newArray item [] [.literal "null"])⟩,
    .field ⟨[], item, "lid", none⟩, .openMethod (.ofMethod item "first"),
    .statement (.result (some (.element (.ownField "items") (.literal "0")))), .closeMethod,
    .openType (.ofInterface "Lid"), .declareMethod (.ofMethod item "open"), .closeType, .closeType]

def boxText : String :=
  "package app;\n\nimport lib.Item;\n\npublic class Box \x7b\n" ++
  "    private Item[] items = new Item[] \x7b null \x7d;\n    Item lid;\n\n" ++
  "    Item first() \x7b\n        return this.items[0];\n    \x7d\n\n" ++
  "    public interface Lid \x7b\n        Item open();\n    \x7d\n\x7d\n"

theorem laidOut_of_finish_box :
    (∀ op ∈ boxOps, Plain op.given) ∧ new.applyAll boxOps >>= finish = .ok boxText
      ∧ LaidOut boxOps boxText := by
  have hplain : ∀ op ∈ boxOps, Plain op.given := by decide +kernel
  have hfinish : new.applyAll boxOps >>= finish = .ok boxText := by decide +kernel
  exact ⟨hplain, hfinish, laidOut_of_finish hplain hfinish⟩

end Writer

end TraitWeaver
