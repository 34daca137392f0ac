import TraitWeaver.Proofs.Operations

/-!
# Braces in text

A reader of a generated file counts braces: each opening one is one more that is
open, and each closing one must find one that is open. `openAfter` is that count.

What a file is put together from is mostly indifferent to it. A phrase is *flat* if
it stays on one line and closes just the braces that it opens, however names are
spelled in it. Words of the language are flat, phrases of flat phrases are, and so
is what stands between braces that are written around a flat phrase, as the items
of an array do.
-/

namespace TraitWeaver

/-! ## Counting -/

/-- How many braces are open after a character; nothing if it closes a brace that is not open. -/
def countBrace (d : Nat) (c : Char) : Option Nat :=
  if c = '\x7b' then some (d + 1)
  else if c = '\x7d' then (if d = 0 then none else some (d - 1))
  else some d

/-- How many braces are open after a text in which every closing brace finds an open one, if so many
are open before it. -/
def openAfter (d : Nat) (cs : List Char) : Option Nat := cs.foldlM countBrace d

theorem openAfter_cons (d : Nat) (c : Char) (cs : List Char) :
    openAfter d (c :: cs) = (countBrace d c).bind (openAfter · cs) := rfl

theorem openAfter_append (d : Nat) (cs ds : List Char) :
    openAfter d (cs ++ ds) = (openAfter d cs).bind (openAfter · ds) := List.foldlM_append

theorem openAfter_append_of_eq {d m : Nat} {cs : List Char} (h : openAfter d cs = some m)
    (ds : List Char) : openAfter d (cs ++ ds) = openAfter m ds := by
  rw [openAfter_append, h, Option.bind_some]

/-- What holds of one character that is counted holds of a text. -/
theorem openAfter_induction {motive : Nat → List Char → Nat → Prop} (nil : ∀ d, motive d [] d)
    (cons : ∀ d c m cs d', countBrace d c = some m → motive m cs d' → motive d (c :: cs) d')
    {d d' : Nat} {cs : List Char} (h : openAfter d cs = some d') : motive d cs d' := by
  induction cs generalizing d with
  | nil => exact Option.some.inj h ▸ nil d
  | cons c cs ih =>
      rw [openAfter_cons] at h
      obtain ⟨m, hc, hcs⟩ := Option.bind_eq_some_iff.mp h
      exact cons d c m cs d' hc (ih hcs)

theorem countBrace_add {d m : Nat} {c : Char} (h : countBrace d c = some m) (k : Nat) :
    countBrace (d + k) c = some (m + k) := by
  unfold countBrace at h ⊢
  split at h
  · rename_i hc
    rw [if_pos hc, ← Option.some.inj h, Nat.add_right_comm]
  · rename_i hc
    rw [if_neg hc]
    split at h
    · rename_i hc'
      rw [if_pos hc']
      split at h
      · cases h
      · rw [if_neg (by omega), ← Option.some.inj h]
        congr 1
        omega
    · rename_i hc'
      rw [if_neg hc', ← Option.some.inj h]

theorem count_of_countBrace {d m : Nat} {c : Char} (h : countBrace d c = some m) (cs : List Char) :
    d + (c :: cs).count '\x7b' + cs.count '\x7d' =
      m + cs.count '\x7b' + (c :: cs).count '\x7d' := by
  unfold countBrace at h
  split at h
  · rename_i hc
    rw [hc, List.count_cons_self, List.count_cons_of_ne (by decide), ← Option.some.inj h]
    omega
  · rename_i hc
    rw [List.count_cons_of_ne hc]
    split at h
    · rename_i hc'
      rw [hc', List.count_cons_self]
      split at h
      · cases h
      · rw [← Option.some.inj h]
        omega
    · rename_i hc'
      rw [List.count_cons_of_ne hc', ← Option.some.inj h]

/-- Braces that are open further out make no difference. -/
theorem openAfter_add {d d' : Nat} {cs : List Char} (h : openAfter d cs = some d') (k : Nat) :
    openAfter (d + k) cs = some (d' + k) := by
  refine openAfter_induction (motive := fun d cs d' => openAfter (d + k) cs = some (d' + k))
    (fun _ => rfl) (fun d c m cs d' hc ih => ?_) h
  rw [openAfter_cons, countBrace_add hc, Option.bind_some, ih]

/-- The count is the number of opening braces without that of closing ones. -/
theorem count_of_openAfter {d d' : Nat} {cs : List Char} (h : openAfter d cs = some d') :
    d + cs.count '\x7b' = d' + cs.count '\x7d' := by
  refine openAfter_induction
    (motive := fun d cs d' => d + cs.count '\x7b' = d' + cs.count '\x7d') (fun _ => rfl)
    (fun d c m cs d' hc ih => ?_) h
  have := count_of_countBrace hc cs
  omega

theorem openAfter_of_not_mem {cs : List Char} (hopen : '\x7b' ∉ cs) (hclose : '\x7d' ∉ cs)
    (d : Nat) : openAfter d cs = some d := by
  induction cs with
  | nil => rfl
  | cons c cs ih =>
      rw [List.mem_cons, not_or] at hopen hclose
      rw [openAfter_cons, countBrace, if_neg (Ne.symm hopen.1), if_neg (Ne.symm hclose.1),
        Option.bind_some, ih hopen.2 hclose.2]

/-- **No beginning of a text closes a brace that is not open.** -/
theorem closed_le_of_prefix {d d' : Nat} {cs p : List Char} (h : openAfter d cs = some d')
    (hp : p <+: cs) : p.count '\x7d' ≤ d + p.count '\x7b' := by
  obtain ⟨rest, rfl⟩ := hp
  rw [openAfter_append] at h
  obtain ⟨m, hm, -⟩ := Option.bind_eq_some_iff.mp h
  have := count_of_openAfter hm
  omega

/-- A text that closes no brace from further out does not begin with one. -/
theorem head?_ne_of_openAfter {m : Nat} {cs : List Char} (h : openAfter 0 cs = some m) :
    cs.head? ≠ some '\x7d' := by
  intro hhead
  obtain ⟨rest, rfl⟩ := List.head?_eq_some_iff.mp hhead
  cases h

/-! ## Flat texts -/

/-- A text without braces and line feeds. -/
def IsPlain (s : String) : Prop := ∀ c ∈ s.toList, c ≠ '\x7b' ∧ c ≠ '\x7d' ∧ c ≠ '\n'

-- named, so that the characters of the text are gone through and not all that there are
instance (s : String) : Decidable (IsPlain s) :=
  List.decidableBAll (fun c => c ≠ '\x7b' ∧ c ≠ '\x7d' ∧ c ≠ '\n') s.toList

/-- A text that stays on its line and closes just the braces that it opens. -/
structure Flat (s : String) : Prop where
  braces : openAfter 0 s.toList = some 0
  oneLine : '\n' ∉ s.toList

theorem flat_iff {s : String} : Flat s ↔ openAfter 0 s.toList = some 0 ∧ '\n' ∉ s.toList :=
  ⟨fun h => ⟨h.braces, h.oneLine⟩, fun h => ⟨h.1, h.2⟩⟩

instance (s : String) : Decidable (Flat s) := decidable_of_iff _ flat_iff.symm

theorem IsPlain.flat {s : String} (h : IsPlain s) : Flat s where
  braces := openAfter_of_not_mem (fun hc => (h _ hc).1 rfl) (fun hc => (h _ hc).2.1 rfl) 0
  oneLine := fun hc => (h _ hc).2.2 rfl

theorem IsPlain.append {s t : String} (hs : IsPlain s) (ht : IsPlain t) : IsPlain (s ++ t) := by
  intro c hc
  rw [String.toList_append] at hc
  exact (List.mem_append.mp hc).elim (hs c) (ht c)

theorem IsPlain.qualified {n : DeclaredName} (hpackage : IsPlain n.package)
    (hsimple : IsPlain n.simple) : IsPlain n.qualified := by
  unfold DeclaredName.qualified
  split
  · exact hsimple
  · exact (hpackage.append (by decide : IsPlain ".")).append hsimple

namespace Flat

variable {s t : String}

theorem append (hs : Flat s) (ht : Flat t) : Flat (s ++ t) where
  braces := by rw [String.toList_append, openAfter_append_of_eq hs.braces, ht.braces]
  oneLine := by
    rw [String.toList_append, List.mem_append, not_or]
    exact ⟨hs.oneLine, ht.oneLine⟩

theorem openAfter_eq (h : Flat s) (d : Nat) : openAfter d s.toList = some d := by
  have := openAfter_add h.braces d
  rwa [Nat.zero_add] at this

/-- What is put between braces may be flat in itself. -/
theorem enclosed (h : Flat s) {before after : String} (hbefore : openAfter 0 before.toList = some 1)
    (hafter : openAfter 1 after.toList = some 0) (hline : '\n' ∉ before.toList)
    (hline' : '\n' ∉ after.toList) : Flat (before ++ s ++ after) where
  braces := by
    rw [String.toList_append, String.toList_append, List.append_assoc,
      openAfter_append_of_eq hbefore, openAfter_append_of_eq (h.openAfter_eq 1), hafter]
  oneLine := by
    rw [String.toList_append, String.toList_append, List.mem_append, List.mem_append, not_or,
      not_or]
    exact ⟨⟨hline, h.oneLine⟩, hline'⟩

end Flat

/-! ## Flat phrases -/

theorem NameTable.spell_append (r : NameTable) (p q : Phrase) :
    r.spell (p ++ q) = r.spell p ++ r.spell q := by
  unfold spell
  rw [List.map_append, String.join_append]

namespace Phrase

/-- The phrase is flat, however names are spelled. -/
def IsFlat (p : Phrase) : Prop := ∀ r : NameTable, Flat (r.spell p)

namespace IsFlat

variable {p q : Phrase}

theorem nil : IsFlat [] := fun _ => (by decide : Flat "")

theorem append (hp : p.IsFlat) (hq : q.IsFlat) : (p ++ q).IsFlat := by
  intro r
  rw [NameTable.spell_append]
  exact (hp r).append (hq r)

theorem word {text : String} (h : Flat text) : (Phrase.word text).IsFlat := by
  intro r
  rw [Writer.spell_word]
  exact h

theorem name {n : DeclaredName} (hpackage : IsPlain n.package) (hsimple : IsPlain n.simple) :
    IsFlat [.name n] := by
  intro r
  have hspell : r.spell [.name n] = r.spellName n := by
    show String.join [r.spellName n] = r.spellName n
    simp [String.join]
  rw [hspell]
  unfold NameTable.spellName
  split
  · exact hsimple.flat
  · exact (hpackage.qualified hsimple).flat

theorem separated {ps : List Phrase} (h : ∀ p ∈ ps, p.IsFlat) {separator : String}
    (hs : Flat separator) : (Phrase.separated separator ps).IsFlat := by
  induction ps with
  | nil => exact nil
  | cons p ps ih =>
      obtain ⟨hp, hps⟩ := List.forall_mem_cons.mp h
      cases ps with
      | nil => exact hp
      | cons q qs => exact (hp.append (word hs)).append (ih hps)

theorem listed {ps : List Phrase} (h : ∀ p ∈ ps, p.IsFlat) {opening separator : String}
    (ho : Flat opening) (hs : Flat separator) : (Phrase.listed opening separator ps).IsFlat := by
  unfold Phrase.listed
  split
  · exact nil
  · exact (word ho).append (separated h hs)

theorem flatMap {α : Type} {as : List α} {phrase : α → Phrase} (h : ∀ a ∈ as, (phrase a).IsFlat) :
    IsFlat (as.flatMap phrase) := by
  induction as with
  | nil => exact nil
  | cons a as ih =>
      obtain ⟨ha, has⟩ := List.forall_mem_cons.mp h
      rw [List.flatMap_cons]
      exact ha.append (ih has)

end IsFlat

end Phrase

end TraitWeaver
