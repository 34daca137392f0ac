import Mathlib.Data.List.Induction
import TraitWeaver.Proofs.NameOwner

/-!
# Who owns a simple name after any registrations

Types may be registered again and again, with preference now and without it before,
and each time the types of one simple name change places. So a place in the table
stands for a past, and this module says for which one.

* A registration touches the types of one simple name only (`types_register`), so
  what a name has come to is the work of the registrations under it
  (`types_registered`).
* The first place is the last preferred registration's, or else the first one's
  (`owner?_registered`). That is carried along step by step: a preferred type takes
  the place from whoever has it, any other one takes it if nobody does.
* The other places matter for nothing but that no type has two of them.
-/

namespace TraitWeaver

/-- A type that is made known in a file, with preference over the types known before or without. -/
structure Registration where
  type : DeclaredType
  preferred : Bool
deriving DecidableEq

namespace Registration

def name (g : Registration) : DeclaredName := g.type.name

/--
What becomes of the types that are known under the simple name of the registered
one, the first of which owns the name. A known type may only move to the front.
-/
def place (g : Registration) (types : List DeclaredType) : List DeclaredType :=
  match types.findIdx? (·.sameType g.type) with
  | some i =>
    if g.preferred ∧ i ≠ 0 then types[i]?.toList ++ types.eraseIdx i else types
  | none => if g.preferred then .plain g.name :: types else types ++ [.plain g.name]

/-- The registrations under a simple name. -/
def under (simple : String) (history : List Registration) : List Registration :=
  history.filter (·.name.simple = simple)

/-- The type of the last preferred registration under a simple name, or of the first one if there
was no preferred one. -/
def ownerOf (simple : String) (history : List Registration) : Option DeclaredName :=
  ((((under simple history).filter (·.preferred)).getLast?).or (under simple history).head?).map
    (·.name)

end Registration

namespace NameTable

def register (r : NameTable) (g : Registration) : NameTable := r.add g.name g.preferred

/-- The table of a file after some registrations. -/
def registered (package : String) (history : List Registration) : NameTable :=
  history.foldl register (empty package)

/-- The types that are known under a simple name; the first one owns it. -/
def types (r : NameTable) (simple : String) : List DeclaredType :=
  (r.candidates simple).map .plain

/-- **What a table is after some registrations**, whatever they were. -/
structure Reflects (r : NameTable) (history : List Registration) : Prop where
  /-- The types of a simple name have been put in their places one after the other. -/
  placed : ∀ s, r.types s = (Registration.under s history).foldl (fun types g => g.place types) []
  /-- No type is known under a simple name twice. -/
  distinct : ∀ s, (r.types s).Pairwise fun t u => ¬t.sameType u = true
  /-- What is known under a simple name bears it, and has no arguments. -/
  bears : ∀ s, ∀ t ∈ r.types s, t.name.simple = s ∧ t.args = []
  /-- It is what has been registered. -/
  known_iff : ∀ s n, (∃ t ∈ r.types s, t.name = n) ↔ n.simple = s ∧ ∃ g ∈ history, g.name = n
  /-- The simple name stands for the last preferred type, or else for the first one. -/
  isShort_iff : ∀ g ∈ history,
    r.isShort g.name = true ↔ Registration.ownerOf g.name.simple history = some g.name
  /-- Every simple name under which there was a registration has one owner. -/
  existsUnique_owner : ∀ g ∈ history, ∃! n, n ∈ r.owners ∧ n.simple = g.name.simple
  /-- The owners have been registered themselves. -/
  registered_of_mem_owners : ∀ n ∈ r.owners, ∃ g ∈ history, g.name = n
  increasing_owners : DeclaredName.Increasing r.owners

end NameTable

/-! ## One registration -/

namespace Registration

variable {g : Registration}

/-- A type that is known moves to the front if it is preferred, and the others keep their order. -/
theorem place_known {before after : List DeclaredType} {t : DeclaredType}
    (hbefore : ∀ u ∈ before, u.sameType g.type = false) (ht : t.sameType g.type = true) :
    g.place (before ++ t :: after) =
      if g.preferred then t :: (before ++ after) else before ++ t :: after := by
  have hidx : (before ++ t :: after).findIdx? (·.sameType g.type) = some before.length := by
    rw [List.findIdx?_append, List.findIdx?_eq_none_iff.mpr hbefore, List.findIdx?_cons, if_pos ht]
    exact congrArg some (Nat.zero_add _)
  unfold place
  rw [hidx]
  dsimp only
  rw [List.getElem?_append_right le_rfl, List.eraseIdx_append_of_length_le le_rfl, Nat.sub_self]
  cases g.preferred with
  | false => simp
  | true =>
      cases before with
      | nil => rfl
      | cons u rest => rfl

/-- Any other type is put to one of the two ends. -/
theorem place_unknown {types : List DeclaredType}
    (h : ∀ u ∈ types, u.sameType g.type = false) :
    g.place types = if g.preferred then .plain g.name :: types else types ++ [.plain g.name] := by
  unfold place
  rw [List.findIdx?_eq_none_iff.mpr h]

theorem sameType_plain_eq_false {n : DeclaredName} (h : n ≠ g.name) :
    (DeclaredType.plain n).sameType g.type = false :=
  beq_false_of_ne h

theorem place_map_plain (g : Registration) (names : List DeclaredName) :
    g.place (names.map .plain) =
      (if g.preferred then g.name :: names.erase g.name
        else if g.name ∈ names then names else names ++ [g.name]).map .plain := by
  by_cases hn : g.name ∈ names
  · obtain ⟨before, after, hno, rfl, herase⟩ := List.exists_erase_eq hn
    rw [if_pos hn, herase, List.map_append, List.map_cons, place_known]
    · cases g.preferred with
      | true => simp
      | false => simp
    · refine List.forall_mem_map.mpr fun m hm => sameType_plain_eq_false ?_
      rintro rfl
      exact hno hm
    · exact beq_self_eq_true _
  · rw [if_neg hn, List.erase_of_not_mem hn, place_unknown]
    · cases g.preferred with
      | true => simp
      | false => simp
    · refine List.forall_mem_map.mpr fun m hm => sameType_plain_eq_false ?_
      rintro rfl
      exact hn hm

end Registration

namespace NameTable

/-- **A registration changes the types of its own simple name and no others.** -/
theorem types_register (r : NameTable) (g : Registration) (s : String) :
    (r.register g).types s = if g.name.simple = s then g.place (r.types s) else r.types s := by
  unfold types register
  rw [Registration.place_map_plain]
  cases g.preferred with
  | true =>
      rw [candidates_add_preferred]
      split <;> rfl
  | false =>
      rw [candidates_add_later]
      by_cases hs : g.name.simple = s
      · simp only [hs, true_and, if_true, ite_not, Bool.false_eq_true, if_false]
      · rw [if_neg fun h => hs h.1, if_neg hs]

theorem mem_names_register {r : NameTable} {g : Registration} {n : DeclaredName} :
    n ∈ (r.register g).names ↔ n ∈ r.names ∨ n = g.name := by
  unfold register add
  cases g.preferred with
  | true =>
      rw [if_pos rfl]
      by_cases he : n = g.name
      · exact iff_of_true (he ▸ List.mem_cons_self) (Or.inr he)
      · rw [List.mem_cons, List.mem_erase_of_ne he, or_comm]
  | false =>
      rw [if_neg Bool.false_ne_true]
      split
      · rename_i hg
        refine ⟨Or.inl, ?_⟩
        rintro (hn | rfl)
        · exact hn
        · exact hg
      · exact List.mem_append.trans (or_congr_right List.mem_singleton)

theorem nodup_names_register {r : NameTable} (h : r.names.Nodup) (g : Registration) :
    (r.register g).names.Nodup := by
  unfold register add
  cases g.preferred with
  | true => exact List.nodup_cons.mpr ⟨h.not_mem_erase, h.erase _⟩
  | false =>
      rw [if_neg Bool.false_ne_true]
      split
      · exact h
      · rename_i hg
        exact List.nodup_append_comm.mp (List.nodup_cons.mpr ⟨hg, h⟩)

/-- **A simple name changes hands for a preferred type, or if nobody has it.** -/
theorem owner?_register (r : NameTable) (g : Registration) (s : String) :
    (r.register g).owner? s =
      if g.name.simple = s then
        if g.preferred then some g.name else (r.owner? s).or (some g.name)
      else r.owner? s := by
  unfold register
  cases g.preferred with
  | true => exact owner?_add_preferred r g.name s
  | false =>
      rw [owner?_add_later]
      by_cases hs : g.name.simple = s
      · rw [if_pos hs, if_pos hs]
        rfl
      · rw [if_neg hs, if_neg hs, Option.or_none]

end NameTable

/-! ## Any registrations -/

namespace Registration

theorem under_append (s : String) (history : List Registration) (g : Registration) :
    under s (history ++ [g]) = under s history ++ if g.name.simple = s then [g] else [] := by
  unfold under
  rw [List.filter_append]
  by_cases hs : g.name.simple = s
  · rw [if_pos hs, List.filter_cons_of_pos (by simpa using hs), List.filter_nil]
  · rw [if_neg hs, List.filter_cons_of_neg (by simpa using hs), List.filter_nil]

theorem ownerOf_append (s : String) (history : List Registration) (g : Registration) :
    ownerOf s (history ++ [g]) =
      if g.name.simple = s then
        if g.preferred then some g.name else (ownerOf s history).or (some g.name)
      else ownerOf s history := by
  unfold ownerOf
  rw [under_append]
  by_cases hs : g.name.simple = s
  · rw [if_pos hs, if_pos hs, List.filter_append, List.head?_append]
    cases hg : g.preferred with
    | true =>
        rw [List.filter_cons_of_pos hg, List.filter_nil, List.getLast?_concat]
        rfl
    | false =>
        rw [List.filter_cons_of_neg (by simp [hg]), List.filter_nil, List.append_nil,
          ← Option.or_assoc, Option.map_or]
        rfl
  · rw [if_neg hs, if_neg hs, List.append_nil]

end Registration

namespace NameTable

theorem registered_append (package : String) (history : List Registration) (g : Registration) :
    registered package (history ++ [g]) = (registered package history).register g :=
  List.foldl_concat ..

variable {package : String} {history : List Registration}

/-- **What a simple name has come to is the work of the registrations under it.** -/
theorem types_registered (s : String) :
    (registered package history).types s =
      (Registration.under s history).foldl (fun types g => g.place types) [] := by
  induction history using List.reverseRecOn with
  | nil => rfl
  | append_singleton history g ih =>
      rw [registered_append, types_register, ih, Registration.under_append, List.foldl_append]
      by_cases hs : g.name.simple = s
      · rw [if_pos hs, if_pos hs]
        rfl
      · rw [if_neg hs, if_neg hs]
        rfl

theorem mem_names_registered {n : DeclaredName} :
    n ∈ (registered package history).names ↔ ∃ g ∈ history, g.name = n := by
  induction history using List.reverseRecOn with
  | nil => exact iff_of_false List.not_mem_nil fun ⟨_, hg, _⟩ => List.not_mem_nil hg
  | append_singleton history g ih =>
      rw [registered_append, mem_names_register, ih]
      simp only [List.mem_append, List.mem_singleton, or_and_right, exists_or, exists_eq_left,
        @eq_comm _ n]

theorem nodup_names_registered : (registered package history).names.Nodup := by
  induction history using List.reverseRecOn with
  | nil => exact List.nodup_nil
  | append_singleton history g ih =>
      rw [registered_append]
      exact nodup_names_register ih g

/-- **The owner is the last preferred type, or else the first one.** -/
theorem owner?_registered (s : String) :
    (registered package history).owner? s = Registration.ownerOf s history := by
  induction history using List.reverseRecOn with
  | nil => rfl
  | append_singleton history g ih =>
      rw [registered_append, owner?_register, ih, Registration.ownerOf_append]

theorem mem_types_iff {r : NameTable} {s : String} {t : DeclaredType} :
    t ∈ r.types s ↔ t.name ∈ r.names ∧ t.name.simple = s ∧ t.args = [] := by
  unfold types
  rw [List.mem_map]
  refine ⟨?_, fun ⟨hn, hs, hargs⟩ => ⟨t.name, mem_candidates_iff.mpr ⟨hn, hs⟩, ?_⟩⟩
  · rintro ⟨n, hn, rfl⟩
    obtain ⟨hn, hs⟩ := mem_candidates_iff.mp hn
    exact ⟨hn, hs, rfl⟩
  · rw [DeclaredType.plain, ← hargs]

/-- A simple name under which there was a registration has an owner. -/
theorem exists_owner?_of_mem (package : String) {g : Registration} (hg : g ∈ history) :
    ∃ n, (registered package history).owner? g.name.simple = some n := by
  have hknown : g.name ∈ (registered package history).names := mem_names_registered.mpr ⟨g, hg, rfl⟩
  have hne := List.ne_nil_of_mem (mem_candidates_iff.mpr ⟨hknown, rfl⟩)
  exact Option.isSome_iff_exists.mp (List.isSome_head?.mpr hne)

/--
**A table is what its registrations have made of it**, whatever they were and in
whatever order.
-/
theorem reflects_registered (package : String) (history : List Registration) :
    (registered package history).Reflects history where
  placed := types_registered
  distinct := by
    intro s
    refine List.pairwise_map.mpr ((nodup_names_registered.filter _).imp fun hne hsame => ?_)
    exact hne (eq_of_beq hsame)
  bears := fun s t ht => (mem_types_iff.mp ht).2
  known_iff := by
    intro s n
    refine ⟨?_, ?_⟩
    · intro h
      obtain ⟨t, ht, rfl⟩ := h
      obtain ⟨hn, hs, -⟩ := mem_types_iff.mp ht
      exact ⟨hs, mem_names_registered.mp hn⟩
    · intro h
      obtain ⟨hs, hg⟩ := h
      exact ⟨.plain n, mem_types_iff.mpr ⟨mem_names_registered.mpr hg, hs, rfl⟩, rfl⟩
  isShort_iff := by
    intro g hg
    -- the name has an owner, so it is not the package that counts
    obtain ⟨n, hn⟩ := exists_owner?_of_mem package hg
    rw [owner?_registered] at hn
    rw [NameTable.isShort_iff, owner?_registered, hn]
    simp
  existsUnique_owner := by
    intro g hg
    obtain ⟨n, hn⟩ := exists_owner?_of_mem package hg
    have hs := simple_of_owner? hn
    refine ⟨n, ⟨mem_owners_iff.mpr (hs ▸ hn), hs⟩, ?_⟩
    rintro m ⟨hm, hms⟩
    exact eq_of_mem_owners hm (mem_owners_iff.mpr (hs ▸ hn)) (hms.trans hs.symm)
  registered_of_mem_owners := fun n hn =>
    mem_names_registered.mp (mem_names_of_owner? (mem_owners_iff.mp hn))
  increasing_owners := increasing_owners _

/-- One type twice, another one with arguments, later preferred, and a third one under a name of its
own. -/
def promotion : List Registration :=
  [⟨.plain ⟨"pkg", "Foo"⟩, false⟩, ⟨.plain ⟨"pkg", "Foo"⟩, false⟩,
    ⟨⟨⟨"other", "Foo"⟩, [.plain ⟨"lib", "Item"⟩]⟩, false⟩, ⟨.plain ⟨"other", "Foo"⟩, true⟩,
    ⟨.plain ⟨"lib", "Item"⟩, false⟩]

theorem reflects_registered_promotion :
    (registered "app" promotion).Reflects promotion
      ∧ (registered "app" promotion).types "Foo" = [.plain ⟨"other", "Foo"⟩, .plain ⟨"pkg", "Foo"⟩]
      ∧ (registered "app" promotion).owners = [⟨"lib", "Item"⟩, ⟨"other", "Foo"⟩] :=
  ⟨reflects_registered "app" promotion, by decide +kernel, by decide +kernel⟩

end NameTable

end TraitWeaver
