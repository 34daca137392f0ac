import TraitWeaver.Proofs.OpenScopes
import TraitWeaver.Proofs.SourceTexts
import TraitWeaver.Proofs.Writing

/-!
# The layout of a file

A writer indents a line by the scopes that are open, and it separates members by
what it remembers of the last one. A reader has neither: all that a reader sees are
braces and lines. That both agree is what is proved here, for every accepted series
of requests whose texts are plain.

The link between the two is `Laid`: some lines, read where `d` braces are open,
leave `d'` open, and each of them is indented by the braces that are open where it
starts. Every operation lays its lines, from the depth of the writer before it to
the depth after it (`laid_added`), so a whole run does. What is read off the text of
the file follows from that, line by line.
-/

namespace TraitWeaver

/-! ## Lines of a text -/

namespace Text

/-- Cutting a text into lines adds nothing to it. -/
theorem mem_of_mem_splitLines {cs current : List Char} :
    ∀ line ∈ splitLines current cs, ∀ c ∈ line, c ∈ current ∨ c ∈ cs := by
  fun_induction splitLines current cs with
  | case1 current hempty => exact fun line hline => absurd hline List.not_mem_nil
  | case2 current hfull =>
      intro line hline c hc
      rw [List.mem_singleton.mp hline] at hc
      exact Or.inl (List.mem_reverse.mp hc)
  | case3 current rest ih =>
      intro line hline c hc
      rcases List.mem_cons.mp hline with rfl | hline
      · refine Or.inl ?_
        split at hc
        · exact List.mem_cons_of_mem _ (List.mem_reverse.mp hc)
        · exact List.mem_reverse.mp hc
      · exact Or.inr (List.mem_cons_of_mem _ ((ih line hline c hc).resolve_left List.not_mem_nil))
  | case4 current c rest hc ih =>
      intro line hline c' hc'
      rcases ih line hline c' hc' with hcurrent | hrest
      · rcases List.mem_cons.mp hcurrent with rfl | hcurrent
        · exact Or.inr List.mem_cons_self
        · exact Or.inl hcurrent
      · exact Or.inr (List.mem_cons_of_mem _ hrest)

theorem append_ne_of_left {s : String} (h : s ≠ "") (t : String) : s ++ t ≠ "" :=
  fun hempty => h (String.append_eq_empty_iff.mp hempty).1

theorem append_ne_of_right (s : String) {t : String} (h : t ≠ "") : s ++ t ≠ "" :=
  fun hempty => h (String.append_eq_empty_iff.mp hempty).2

theorem mem_of_mem_lines {s line : String} {c : Char} (hline : line ∈ lines s)
    (hc : c ∈ line.toList) : c ∈ s.toList := by
  obtain ⟨cs, hcs, rfl⟩ := List.mem_map.mp hline
  rw [String.toList_ofList] at hc
  exact (mem_of_mem_splitLines cs hcs c hc).resolve_left List.not_mem_nil

end Text

/-! ## Lines that are laid -/

namespace Line

/-- The line as it stands in the text, without its line feed. -/
def shown : Line → String
  | blank => ""
  | code depth text => "".pushn ' ' (4 * depth) ++ text

/-- The depth of a text where some braces are open. A closing brace stands further out. -/
def depthOf (d : Nat) (text : String) : Nat :=
  if text.toList.head? = some '\x7d' then d - 1 else d

/-- Some lines where `d` braces are open: they leave `d'` open, and each is at its depth. -/
inductive Laid : Nat → List Line → Nat → Prop
  | nil (d : Nat) : Laid d [] d
  | blank {d d' : Nat} {lines : List Line} : Laid d lines d' → Laid d (.blank :: lines) d'
  | code {d m d' : Nat} {text : String} {lines : List Line} : openAfter d text.toList = some m →
    '\n' ∉ text.toList → text ≠ "" → Laid m lines d' →
    Laid d (.code (depthOf d text) text :: lines) d'

namespace Laid

variable {d m d' : Nat} {lines lines' : List Line} {text : String}

theorem append (h : Laid d lines m) (h' : Laid m lines' d') : Laid d (lines ++ lines') d' := by
  induction h with
  | nil => exact h'
  | blank _ ih => exact .blank (ih h')
  | code hopen hline htext _ ih => exact .code hopen hline htext (ih h')

/-- A line that closes nothing from further out stands at the depth of the braces before it. -/
theorem single {k : Nat} (hopen : openAfter 0 text.toList = some k) (hline : '\n' ∉ text.toList)
    (htext : text ≠ "") (d : Nat) : Laid d [.code d text] (d + k) := by
  have hdepth : depthOf d text = d := if_neg (head?_ne_of_openAfter hopen)
  have hopen' := openAfter_add hopen d
  rw [Nat.zero_add, Nat.add_comm k] at hopen'
  have := Laid.code hopen' hline htext (.nil _)
  rwa [hdepth] at this

theorem flat {α : Type} {as : List α} {text : α → String}
    (h : ∀ a ∈ as, Flat (text a) ∧ text a ≠ "") (d : Nat) :
    Laid d (as.map fun a => .code d (text a)) d := by
  induction as with
  | nil => exact .nil d
  | cons a as ih =>
      obtain ⟨⟨hflat, hne⟩, has⟩ := List.forall_mem_cons.mp h
      exact (single hflat.braces hflat.oneLine hne d).append (ih has)

theorem closing (d : Nat) : Laid (d + 1) [.code d "\x7d"] d := by
  have hopen : openAfter (d + 1) "\x7d".toList = some d := rfl
  exact .code hopen (by decide) (by decide) (.nil d)

end Laid

/-! ## Lines that are read -/

theorem toList_indentation (n : Nat) : ("".pushn ' ' n).toList = List.replicate n ' ' := by
  induction n with
  | zero => rfl
  | succ n ih =>
      show (("".pushn ' ' n).push ' ').toList = _
      rw [String.toList_push, ih, List.replicate_succ']

theorem toList_textOf (lines : List Line) :
    (textOf lines).toList = lines.flatMap fun l => l.shown.toList ++ ['\n'] := by
  unfold textOf
  rw [String.toList_join, List.flatMap_map]
  refine congrArg (List.flatMap · lines) (funext fun l => ?_)
  cases l with
  | blank => rfl
  | code depth text => exact String.toList_append

namespace Laid

variable {d d' : Nat} {lines : List Line}

/-- Blanks and line feeds are not counted. -/
theorem openAfter_flatMap (h : Laid d lines d') {tail : List Char} (hopen : '\x7b' ∉ tail)
    (hclose : '\x7d' ∉ tail) :
    openAfter d (lines.flatMap fun l => l.shown.toList ++ tail) = some d' := by
  have htail := openAfter_of_not_mem hopen hclose
  induction h with
  | nil => rfl
  | blank _ ih =>
      rw [List.flatMap_cons, shown, String.toList_empty, List.nil_append,
        openAfter_append_of_eq (htail _)]
      exact ih
  | @code d m d' text lines hcount hline htext _ ih =>
      have hindent : openAfter d ("".pushn ' ' (4 * depthOf d text)).toList = some d := by
        rw [toList_indentation]
        exact openAfter_of_not_mem (by simp) (by simp) d
      rw [List.flatMap_cons, shown, String.toList_append, List.append_assoc, List.append_assoc,
        openAfter_append_of_eq hindent, openAfter_append_of_eq hcount,
        openAfter_append_of_eq (htail m)]
      exact ih

theorem not_mem_shown (h : Laid d lines d') : ∀ l ∈ lines, '\n' ∉ l.shown.toList := by
  induction h with
  | nil => exact fun _ hl => absurd hl List.not_mem_nil
  | blank _ ih => exact List.forall_mem_cons.mpr ⟨by decide, ih⟩
  | code _ hline _ _ ih =>
      refine List.forall_mem_cons.mpr ⟨?_, ih⟩
      rw [shown, String.toList_append, toList_indentation, List.mem_append, not_or]
      exact ⟨by simp, hline⟩

/-- The text of laid lines is cut into just these lines. -/
theorem pieces_textOf (h : Laid d lines d') :
    Text.pieces '\n' (textOf lines) = lines.map shown ++ [""] := by
  have hlines := h.not_mem_shown
  have hcut : Text.splitAll '\n' (lines.flatMap fun l => l.shown.toList ++ ['\n']) =
      lines.map (·.shown.toList) ++ [[]] := by
    clear h
    induction lines with
    | nil => rfl
    | cons l lines ih =>
        obtain ⟨hl, hlines⟩ := List.forall_mem_cons.mp hlines
        rw [List.flatMap_cons, List.append_assoc, List.singleton_append,
          Text.splitAll_append_sep, Text.splitAll_of_not_mem hl, ih hlines]
        rfl
  unfold Text.pieces
  rw [toList_textOf, hcut, List.map_append, List.map_map]
  congr 1
  exact List.map_congr_left fun l _ => String.ofList_toList

/-- The lines that are not blank are those of code. -/
theorem shown_ne_iff (h : Laid d lines d') : ∀ l ∈ lines, l.shown ≠ "" ↔ l.code?.isSome := by
  induction h with
  | nil => exact fun _ hl => absurd hl List.not_mem_nil
  | blank _ ih => exact List.forall_mem_cons.mpr ⟨by decide, ih⟩
  | code _ _ htext _ ih =>
      exact List.forall_mem_cons.mpr ⟨iff_of_true (Text.append_ne_of_right _ htext) rfl, ih⟩

/-- Each line of code is at the depth of the braces before it. -/
theorem split {before after : List Line} {depth : Nat} {text : String}
    (h : Laid d (before ++ .code depth text :: after) d') :
    ∃ m, Laid d before m ∧ depth = depthOf m text := by
  induction before generalizing d with
  | nil =>
      cases h with
      | code _ _ _ _ => exact ⟨d, .nil d, rfl⟩
  | cons l before ih =>
      cases h with
      | blank hrest =>
          obtain ⟨m, hbefore, hdepth⟩ := ih hrest
          exact ⟨m, .blank hbefore, hdepth⟩
      | code hopen hline htext hrest =>
          obtain ⟨m, hbefore, hdepth⟩ := ih hrest
          exact ⟨m, .code hopen hline htext hbefore, hdepth⟩

end Laid

end Line

/-! ## Lines that are written -/

namespace NameTable

/-- The types that own simple names have plain names. -/
def HasPlainOwners (r : NameTable) : Prop := ∀ s n, r.owner? s = some n → Plain n.given

theorem HasPlainOwners.empty (package : String) : (empty package).HasPlainOwners :=
  fun _ _ h => by cases h

theorem HasPlainOwners.addAll {r : NameTable} {types : List DeclaredName}
    (h : r.HasPlainOwners) (htypes : ∀ n ∈ types, Plain n.given) :
    (r.addAll types).HasPlainOwners := by
  intro s n hn
  rw [owner?_addAll] at hn
  split at hn
  · rename_i hown
    exact Option.some.inj hn ▸ htypes _ hown
  · split at hn
    · rename_i hlanguage
      exact Option.some.inj hn ▸ htypes _ hlanguage
    · rcases Option.or_eq_some_iff.mp hn with hn | ⟨-, hn⟩
      · exact h s n hn
      · exact htypes n (List.mem_of_find?_eq_some hn)

end NameTable

namespace Writer

open Line

variable {w w' : Writer} {op : Op} {ops : List Op}

/-- What ends a line and opens `k` braces. -/
structure Terminates (terminator : String) (k : Nat) : Prop where
  braces : openAfter 0 terminator.toList = some k
  oneLine : '\n' ∉ terminator.toList
  ne : terminator ≠ ""

theorem terminates_semicolon : Terminates ";" 0 := ⟨by decide, by decide, by decide⟩

theorem terminates_brace : Terminates " \x7b" 1 := ⟨by decide, by decide, by decide⟩

section

variable {r : NameTable} {p : Phrase} {terminator : String} {k : Nat}

/-- A phrase and what ends its line. -/
theorem laid_phrase (hp : p.IsFlat) (ht : Terminates terminator k) (d : Nat) :
    Laid d [.code d (r.spell (p ++ Phrase.word terminator))] (d + k) := by
  have hflat := hp r
  rw [NameTable.spell_append, spell_word]
  refine .single ?_ ?_ (Text.append_ne_of_right _ ht.ne) d
  · rw [String.toList_append, openAfter_append_of_eq hflat.braces, ht.braces]
  · rw [String.toList_append, List.mem_append, not_or]
    exact ⟨hflat.oneLine, ht.oneLine⟩

theorem laid_method {h : MethodHeading} (hplain : Plain h.given) (ht : Terminates terminator k)
    (d : Nat) : Laid d ((h.annotationPhrases ++ [h.phrase ++ Phrase.word terminator]).map
      fun p => .code d (r.spell p)) (d + k) := by
  rw [List.map_append]
  refine Laid.append (m := d) ?_ (laid_phrase (MethodHeading.isFlat hplain) ht d)
  refine .flat (fun p hp => ⟨?_, ?_⟩) d
  · exact MethodHeading.isFlat_annotationPhrases hplain p hp r
  · obtain ⟨a, -, rfl⟩ := List.mem_map.mp hp
    rw [NameTable.spell_append, spell_word]
    exact Text.append_ne_of_left (by decide) _

end

theorem laid_gap (previous : Option MemberKind) (next : MemberKind) (d : Nat) :
    Laid d (Line.gap previous next) d := by
  unfold Line.gap
  split
  · exact .nil d
  · exact .nil d
  · exact .blank (.nil d)

theorem laid_package {name : String} (h : IsPlain name) : Laid 0 (Line.package name) 0 := by
  unfold Line.package
  split
  · exact .nil 0
  · have hflat : Flat s!"package {name};" :=
      (((by decide : IsPlain "package ").append h).append (by decide : IsPlain ";")).flat
    refine Laid.append (m := 0) (.single hflat.braces hflat.oneLine ?_ 0) (.blank (.nil 0))
    exact Text.append_ne_of_right _ (by decide)

theorem laid_imports {names : List DeclaredName} (h : ∀ n ∈ names, IsPlain n.qualified) :
    Laid 0 (Line.imports names) 0 := by
  unfold Line.imports
  split
  · exact .nil 0
  · refine Laid.append (m := 0) ?_ (.blank (.nil 0))
    refine .flat (fun n hn => ⟨?_, Text.append_ne_of_right _ (by decide : ";" ≠ "")⟩) 0
    have himport : IsPlain "import " := by decide
    exact ((himport.append (h n hn)).append (by decide : IsPlain ";")).flat

theorem laid_comment {text : String} (h : IsPlain text) (d : Nat) :
    Laid d ((Text.lines text).map fun line => .code d (if line = "" then "//" else s!"// {line}"))
      d := by
  refine .flat (fun line hline => ?_) d
  have hplain : IsPlain line := fun c hc => h c (Text.mem_of_mem_lines hline hc)
  split
  · exact ⟨by decide, by decide⟩
  · refine ⟨((by decide : IsPlain "// ").append hplain).flat, ?_⟩
    exact Text.append_ne_of_left (by decide : "// " ≠ "") _

/-- The writer has laid all its lines. -/
structure Tidy (w : Writer) : Prop where
  nested : Nested w.scopes w.kinds
  names : w.names.HasPlainOwners
  laid : Laid 0 w.lines.toList w.depth

namespace Tidy

/-- **An operation lays its lines**, from the depth before it to the depth after it. -/
theorem laid_added (h : w.Tidy) (hadmits : w.Admits op) (hplain : Plain op.given) :
    Laid w.depth (w.added op) (w.after op).depth := by
  -- what a scope that is closed leaves is one less
  have hclosing : ∀ scope : Scope, scope.isBody = true → w.scope = some scope →
      Laid w.depth [.code (w.scopes.tail.countP (·.isBody)) (w.names.spell (Phrase.word "\x7d"))]
        (w.scopes.tail.countP (·.isBody)) := by
    intro scope hbody hscope
    obtain ⟨rest, hrest⟩ := List.head?_eq_some_iff.mp hscope
    have hdepth : w.depth = w.scopes.tail.countP (·.isBody) + 1 := by
      unfold depth
      rw [hrest, List.countP_cons_of_pos hbody, List.tail_cons]
    rw [hdepth, spell_word]
    exact .closing _
  -- what a scope that is opened adds is one more
  have hopening : ∀ scope : Scope, scope.isBody = true →
      (scope :: w.scopes).countP (·.isBody) = w.depth + 1 :=
    fun scope hbody => List.countP_cons_of_pos hbody
  have hmethod : ∀ heading : MethodHeading, Plain heading.given →
      Laid w.depth (Line.gap w.previous .block ++
        (heading.annotationPhrases ++ [heading.phrase ++ Phrase.word " \x7b"]).map
          fun p => .code w.depth (w.names.spell p))
        ((Scope.method :: w.scopes).countP (·.isBody)) := by
    intro heading hheading
    rw [hopening .method rfl]
    exact (laid_gap _ _ _).append (laid_method hheading terminates_brace _)
  cases op with
  | package name =>
      have hscopes : w.scopes = [] := hadmits
      show Laid (w.scopes.countP _) (Line.package name) ((.package :: w.scopes).countP _)
      rw [hscopes]
      exact laid_package (hplain name List.mem_cons_self)
  | imports types =>
      obtain ⟨hscopes, -⟩ := h.nested.of_head_package hadmits
      show Laid (w.scopes.countP _) (Line.imports (w.names.addAll types).imports)
        ((.imports :: w.scopes).countP _)
      rw [hscopes]
      refine laid_imports fun n hn => ?_
      have howner := (NameTable.mem_imports_iff.mp hn).1
      obtain ⟨hpackage, hsimple⟩ := Plain.cons_iff.mp
        (h.names.addAll (Plain.flatMap_iff.mp hplain) _ n howner)
      exact hpackage.qualified (hsimple _ List.mem_cons_self)
  | openType heading =>
      show Laid w.depth (Line.gap w.previous .block ++ [_]) ((.type :: w.scopes).countP _)
      rw [hopening .type rfl]
      exact (laid_gap _ _ _).append
        (laid_phrase (TypeHeading.isFlat hplain) terminates_brace _)
  | closeType => exact hclosing .type rfl hadmits
  | field f =>
      exact (laid_gap _ _ _).append
        (laid_phrase (Field.isFlat hplain) terminates_semicolon _)
  | declareMethod heading =>
      exact (laid_gap _ _ _).append (laid_method hplain terminates_semicolon _)
  | openMethod heading => exact hmethod heading hplain
  | openConstructor heading => exact hmethod heading hplain
  | statement e => exact laid_phrase (Expr.isFlat hplain) terminates_semicolon _
  | closeMethod => exact hclosing .method rfl hadmits
  | comment text =>
      show Laid w.depth (w.codeLines (.comment text)) w.depth
      rw [codeLines_comment]
      exact laid_comment (hplain text List.mem_cons_self) _
  | blankLine => exact .blank (.nil _)

theorem after (h : w.Tidy) (hadmits : w.Admits op) (hplain : Plain op.given) :
    (w.after op).Tidy where
  nested := h.nested.after hadmits
  names := by
    cases op with
    | package name => exact .empty name
    | imports types => exact h.names.addAll (Plain.flatMap_iff.mp hplain)
    | _ => exact h.names
  laid := by
    show Laid 0 (w.lines ++ (w.added op).toArray).toList (w.after op).depth
    rw [Array.toList_append]
    exact h.laid.append (h.laid_added hadmits hplain)

/-- **So does a run.** -/
theorem applyAll (h : w.Tidy) (hplain : ∀ op ∈ ops, Plain op.given)
    (hrun : w.applyAll ops = .ok w') : w'.Tidy := by
  induction ops generalizing w with
  | nil => exact Except.ok.inj hrun ▸ h
  | cons op ops ih =>
      obtain ⟨hop, hops⟩ := List.forall_mem_cons.mp hplain
      obtain ⟨hadmits, hrest⟩ := applyAll_cons_eq_ok_iff.mp hrun
      exact ih (h.after hadmits hop) hops hrest

theorem new : Writer.new.Tidy := ⟨.fresh, .empty "", .nil 0⟩

end Tidy

end Writer

end TraitWeaver
