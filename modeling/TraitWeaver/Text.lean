/-!
# Text

The few operations on text that the rest of the library shares: cutting a text at every or at the
last occurrence of a character, cutting it into lines, and finding the first numbered form of a name
that is still free.
-/

namespace TraitWeaver.Text

/-! ## Cutting at the last separator -/

/-- The characters before and after the last `sep`, if there is one. -/
def splitLast (sep : Char) : List Char → Option (List Char × List Char)
  | [] => none
  | c :: rest =>
    match splitLast sep rest with
    | some (before, after) => some (c :: before, after)
    | none => if c = sep then some ([], rest) else none

/-- A cut gives back the text it was made from. -/
theorem splitLast_eq_append {sep : Char} {cs before after : List Char}
    (h : splitLast sep cs = some (before, after)) : cs = before ++ sep :: after := by
  induction cs generalizing before with
  | nil => simp [splitLast] at h
  | cons c rest ih =>
    rw [splitLast] at h
    split at h
    · next hr =>
      obtain ⟨rfl, rfl⟩ := Prod.mk.inj (Option.some.inj h)
      rw [ih hr, List.cons_append]
    · split at h
      · next hc =>
        obtain ⟨rfl, rfl⟩ := Prod.mk.inj (Option.some.inj h)
        rw [hc, List.nil_append]
      · simp at h

/-- Nothing is cut exactly when the separator does not occur. -/
theorem splitLast_eq_none_iff {sep : Char} {cs : List Char} :
    splitLast sep cs = none ↔ sep ∉ cs := by
  induction cs with
  | nil => simp [splitLast]
  | cons c rest ih =>
    rw [splitLast]
    cases hr : splitLast sep rest with
    | some p => simpa [hr] using fun _ => ih
    | none =>
      have hrest : sep ∉ rest := ih.1 hr
      by_cases hc : c = sep
      · simp [hc]
      · simp [hc, hrest, Ne.symm hc]

/-- The separator does not occur after the cut. -/
theorem not_mem_after_splitLast {sep : Char} {cs before after : List Char}
    (h : splitLast sep cs = some (before, after)) : sep ∉ after := by
  induction cs generalizing before with
  | nil => simp [splitLast] at h
  | cons c rest ih =>
    rw [splitLast] at h
    split at h
    · next hr =>
      obtain ⟨rfl, rfl⟩ := Prod.mk.inj (Option.some.inj h)
      exact ih hr
    · next hr =>
      split at h
      · obtain ⟨rfl, rfl⟩ := Prod.mk.inj (Option.some.inj h)
        exact splitLast_eq_none_iff.1 hr
      · simp at h

/-- The parts of a text before and after its last dot. -/
def splitLastDot (s : String) : Option (String × String) :=
  (splitLast '.' s.toList).map fun (before, after) =>
    (String.ofList before, String.ofList after)

/-! ## Cutting at every separator -/

/-- The pieces between the occurrences of `sep`, one more than there are of it. -/
def splitAll (sep : Char) : List Char → List (List Char)
  | [] => [[]]
  | c :: rest =>
    if c = sep then [] :: splitAll sep rest
    else
      match splitAll sep rest with
      | [] => [[c]]
      | piece :: pieces => (c :: piece) :: pieces

/-- The pieces of a text between the occurrences of `sep`. -/
def pieces (sep : Char) (s : String) : List String := (splitAll sep s.toList).map String.ofList

section

variable {sep : Char} {cs piece : List Char}

theorem splitAll_ne_nil (sep : Char) (cs : List Char) : splitAll sep cs ≠ [] := by
  cases cs with
  | nil => exact List.cons_ne_nil _ _
  | cons c cs =>
    rw [splitAll]
    split
    · exact List.cons_ne_nil _ _
    · split <;> exact List.cons_ne_nil _ _

theorem splitAll_of_not_mem (h : sep ∉ cs) : splitAll sep cs = [cs] := by
  induction cs with
  | nil => rfl
  | cons c cs ih =>
    rw [List.mem_cons, not_or] at h
    rw [splitAll, if_neg (Ne.symm h.1), ih h.2]

/-- A separator between two texts separates their pieces. -/
theorem splitAll_append_sep (sep : Char) (cs rest : List Char) :
    splitAll sep (cs ++ sep :: rest) = splitAll sep cs ++ splitAll sep rest := by
  induction cs with
  | nil => exact if_pos rfl
  | cons c cs ih =>
    rw [List.cons_append, splitAll, splitAll, ih]
    split
    · rfl
    · cases hcs : splitAll sep cs with
      | nil => exact absurd hcs (splitAll_ne_nil sep cs)
      | cons piece pieces => rfl

/-- What follows a text without a separator goes on with its last piece. -/
theorem exists_splitAll_append (cs : List Char) {rest : List Char} (h : sep ∉ rest) :
    ∃ before last, splitAll sep cs = before ++ [last]
      ∧ splitAll sep (cs ++ rest) = before ++ [last ++ rest] := by
  induction cs with
  | nil => exact ⟨[], [], rfl, splitAll_of_not_mem h⟩
  | cons c cs ih =>
    obtain ⟨before, last, hcs, hall⟩ := ih
    rw [List.cons_append, splitAll, splitAll, hcs, hall]
    split
    · exact ⟨[] :: before, last, rfl, rfl⟩
    · cases before with
      | nil => exact ⟨[], c :: last, rfl, rfl⟩
      | cons piece pieces => exact ⟨(c :: piece) :: pieces, last, rfl, rfl⟩

/-- The pieces hold nothing but what the text holds, and no separator. -/
theorem of_mem_splitAll (h : piece ∈ splitAll sep cs) : ∀ c ∈ piece, c ∈ cs ∧ c ≠ sep := by
  induction cs generalizing piece with
  | nil =>
    rw [List.mem_singleton.mp h]
    exact fun c hc => absurd hc List.not_mem_nil
  | cons d cs ih =>
    have hrest {piece : List Char} (h : piece ∈ splitAll sep cs) :
        ∀ c ∈ piece, c ∈ d :: cs ∧ c ≠ sep :=
      fun c hc => (ih h c hc).imp_left (List.mem_cons_of_mem _)
    rw [splitAll] at h
    split at h
    · rcases List.mem_cons.mp h with rfl | h
      · exact fun c hc => absurd hc List.not_mem_nil
      · exact hrest h
    · rename_i hd
      cases hcs : splitAll sep cs with
      | nil => exact absurd hcs (splitAll_ne_nil sep cs)
      | cons first pieces =>
        rw [hcs] at h
        rcases List.mem_cons.mp h with rfl | h
        · intro c hc
          rcases List.mem_cons.mp hc with rfl | hc
          · exact ⟨List.mem_cons_self, hd⟩
          · exact hrest (hcs ▸ List.mem_cons_self) c hc
        · exact hrest (hcs ▸ List.mem_cons_of_mem _ h)

theorem pieces_append_sep (sep : Char) (s t : String) :
    pieces sep (s ++ String.singleton sep ++ t) = pieces sep s ++ pieces sep t := by
  unfold pieces
  rw [← List.map_append, ← splitAll_append_sep]
  simp

theorem not_mem_of_mem_pieces {s p : String} (h : p ∈ pieces sep s) : sep ∉ p.toList := by
  obtain ⟨piece, hpiece, rfl⟩ := List.mem_map.mp h
  rw [String.toList_ofList]
  exact fun hc => (of_mem_splitAll hpiece sep hc).2 rfl

end

/-! ## Lines -/

/-- The pieces between line feeds, each with the carriage return that stood right before its line
feed removed. The piece after the last line feed is a line only if it is not empty, and keeps all
of its characters. -/
def splitLines (current : List Char) : List Char → List (List Char)
  | [] => if current.isEmpty then [] else [current.reverse]
  | '\n' :: rest =>
    (match current with
      | '\r' :: line => line.reverse
      | line => line.reverse) :: splitLines [] rest
  | c :: rest => splitLines (c :: current) rest

def lines (s : String) : List String :=
  (splitLines [] s.toList).map String.ofList

/-! ## Numbered names -/

/-- The base itself if it is free, else the base followed by the least number from two on that
makes a free name. Among one more candidate than there are taken names at least one is free. -/
def freshNumbered (taken : List String) (base : String) : String :=
  if base ∈ taken then
    let candidates := (List.range (taken.length + 1)).map fun k => s!"{base}{k + 2}"
    (candidates.find? (· ∉ taken)).getD base
  else
    base

end TraitWeaver.Text
