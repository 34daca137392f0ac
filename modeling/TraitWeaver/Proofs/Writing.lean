import TraitWeaver.Proofs.NameOwner
import TraitWeaver.Proofs.Operations
import TraitWeaver.Proofs.Outcome
import TraitWeaver.Source.Unit

/-!
# What a file is written from

Between a plan and its text stands a machine with scopes, depths and blank lines.
For the question which *names* a file spells, and how, nothing of that matters.
Two facts take it out of the way:

* **One operation in the body of a file** leaves the names as they are and adds,
  apart from layout, just the lines that its phrases are spelled as
  (`apply_adds`). A run then adds the phrases of all its operations
  (`applyAll_adds`).
* **What comes before the body** is never refused, and is known to the letter
  (`applyAll_opening`): the comment, the package, and an import for each owner of
  a simple name that the file does not see already.

So the text of a file is made under one table of names, which is known before the
first line of the body is written.
-/

namespace TraitWeaver

namespace Writer

/-- What is written so far, without the layout: the texts on the lines of code. -/
def code (w : Writer) : List String := w.lines.toList.filterMap Line.code?

/-- The operation leaves the names of the file as they are. -/
def Op.keepsNames : Op → Bool
  | .package _ | .imports _ => false
  | _ => true

/-- `w'` has the names of `w`, and beside its lines those that some phrases are spelled as. -/
structure Adds (w : Writer) (phrases : List Phrase) (w' : Writer) : Prop where
  names : w'.names = w.names
  code : w'.code = w.code ++ phrases.map w.names.spell

namespace Adds

theorem nothing (w : Writer) : w.Adds [] w := ⟨rfl, (List.append_nil _).symm⟩

theorem trans {w w' w'' : Writer} {ps qs : List Phrase} (h : w.Adds ps w') (h' : w'.Adds qs w'') :
    w.Adds (ps ++ qs) w'' where
  names := h'.names.trans h.names
  code := by
    rw [h'.code, h.code, h.names, List.map_append, List.append_assoc]

end Adds

/-! ## One operation, and many -/

theorem filterMap_gapBefore (w : Writer) (op : Op) :
    (w.gapBefore op).filterMap Line.code? = [] := by
  unfold gapBefore
  split
  · unfold Line.gap
    split <;> rfl
  · rfl

theorem filterMap_codeLines (w : Writer) (op : Op) :
    (w.codeLines op).filterMap Line.code? = op.phrases.map w.names.spell := by
  unfold codeLines
  rw [List.filterMap_map]
  exact congrFun List.filterMap_eq_map op.phrases

/-- The blank lines among the lines of an operation are all that is not in its phrases. -/
theorem filterMap_added {op : Op} (hop : op.keepsNames = true) (w : Writer) :
    (w.added op).filterMap Line.code? = op.phrases.map w.names.spell := by
  have hlines : (w.gapBefore op ++ w.codeLines op).filterMap Line.code? =
      op.phrases.map w.names.spell := by
    rw [List.filterMap_append, filterMap_gapBefore, filterMap_codeLines, List.nil_append]
  cases op with
  | package name => cases hop
  | imports types => cases hop
  | blankLine => rfl
  | _ => exact hlines

/-- **An operation in the body of a file adds the lines of its phrases**, and does nothing to the
names. -/
theorem apply_adds {w w' : Writer} {op : Op} (hop : op.keepsNames = true)
    (h : w.apply op = .ok w') : w.Adds op.phrases w' := by
  obtain ⟨-, rfl⟩ := apply_eq_ok_iff.mp h
  refine ⟨?_, ?_⟩
  · cases op with
    | package name => cases hop
    | imports types => cases hop
    | _ => rfl
  · unfold code after
    rw [Array.toList_append, List.filterMap_append, filterMap_added hop]

/-- **A run adds the lines of all its operations.** -/
theorem applyAll_adds {w w' : Writer} {ops : List Op} (hops : ∀ op ∈ ops, op.keepsNames = true)
    (h : w.applyAll ops = .ok w') : w.Adds (ops.flatMap (·.phrases)) w' := by
  induction ops generalizing w with
  | nil =>
      obtain rfl := Except.ok.inj h
      exact Adds.nothing w
  | cons op rest ih =>
      obtain ⟨hop, hrest⟩ := List.forall_mem_cons.mp hops
      obtain ⟨hadmits, h⟩ := applyAll_cons_eq_ok_iff.mp h
      exact (apply_adds hop (apply_eq_ok_iff.mpr ⟨hadmits, rfl⟩)).trans (ih hrest h)

end Writer

/-! ## Before the body -/

/-- A comment at the head of a file. -/
def Line.comment (text : String) : List Line :=
  (Text.lines text).map fun line => .code 0 (if line = "" then "//" else s!"// {line}")

namespace CompilationUnit

/-- The operations before the body of the file. -/
def opening (u : CompilationUnit) : List Writer.Op :=
  u.header.toList.map .comment ++ [.package u.package, .imports u.mentions]

/-- How types are named in the file. -/
def names (u : CompilationUnit) : NameTable := .ofTypes u.package u.mentions

/-- The file as far as it stands before the first line of its body. -/
def opened (u : CompilationUnit) : Writer :=
  { lines := (u.header.toList.flatMap Line.comment ++ Line.package u.package ++
      Line.imports u.names.imports).toArray
    scopes := [.imports, .package]
    kinds := []
    names := u.names
    previous := none }

theorem ops_eq (u : CompilationUnit) : u.ops = u.opening ++ u.body.ops := rfl

/-- Where no body is open, a comment adds its lines and nothing else. -/
theorem added_comment {w : Writer} (hw : w.scopes = []) (text : String) :
    w.added (.comment text) = Line.comment text := by
  show w.codeLines (.comment text) = _
  rw [w.codeLines_comment]
  unfold Writer.depth
  rw [hw]
  rfl

/-- **The opening of a file is never refused**, and this is what it comes to. -/
theorem applyAll_opening (u : CompilationUnit) :
    Writer.new.applyAll u.opening = .ok u.opened := by
  have hcomment : Writer.new.applyAll (u.header.toList.map .comment)
      = .ok (Writer.new.putAll (u.header.toList.flatMap Line.comment)) := by
    cases u.header with
    | none => rfl
    | some text =>
        have hadmits : Writer.new.Admits (.comment text) := trivial
        rw [Option.toList_some, List.flatMap_singleton, ← added_comment (w := Writer.new) rfl]
        exact Writer.applyAll_cons_of_admits hadmits []
  unfold opening
  rw [Writer.applyAll_append, hcomment]
  generalize hw : Writer.new.putAll (u.header.toList.flatMap Line.comment) = w
  have hpackage : w.Admits (.package u.package) := hw ▸ rfl
  have himports : (w.after (.package u.package)).Admits (.imports u.mentions) := hw ▸ rfl
  show w.applyAll _ = _
  rw [Writer.applyAll_cons_of_admits hpackage, Writer.applyAll_cons_of_admits himports, ← hw]
  unfold opened
  rw [← List.append_toArray, ← List.append_toArray]
  show Except.ok (Writer.mk (#[] ++ _ ++ _ ++ _) _ _ _ _) = _
  rw [Array.empty_append]
  rfl

/-- **The body of a file is written under the names that its opening settles.** -/
theorem render_eq (u : CompilationUnit) :
    u.render = u.opened.applyAll u.body.ops >>= fun w => w.finish := by
  unfold render
  rw [ops_eq, Writer.applyAll_append, applyAll_opening]
  rfl

end CompilationUnit

end TraitWeaver
