import Mathlib.Data.List.Induction
import TraitWeaver.Proofs.FreshName

/-!
# The fields that hold the delegates

A host has a field for the delegate of each trait. The field is called like the class
of the delegate, and traits of one simple name would all give their fields one name. So
a name that is taken is tried again with a number, and the numbers are counted up until
one is new.

That search has no bound of its own, and the names it must avoid grow with every trait.
Some of them may look like numbered names themselves: with `2` for the suffix, the
delegate of `Box2` is called like the second one of `Box`. What ends the search is that
no name is tried twice, so it gives up on one taken name in each turn
(`Text.exists_turns`). What it then finds is known by the fields before it alone
(`Trait.Named`), which is kept trait by trait (`Trait.Numbered.snoc`).
-/

namespace TraitWeaver

/-! ## The search -/

namespace Text

/-- What the search for a free name tries after some turns: first the base, then the base under one
number after the other. -/
def tried (base : String) : Nat → String
  | 0 => base
  | turn + 1 => s!"{base}{turn + 2}"

theorem tried_injective (base : String) : Function.Injective (tried base) := by
  have hne : ∀ turn, base ≠ tried base (turn + 1) := by
    intro turn he
    have hdigits : "" = (turn + 2).repr :=
      (String.append_right_inj base).mp ((String.append_empty).trans he)
    exact absurd hdigits (by simp)
  intro j k he
  cases j with
  | zero =>
      cases k with
      | zero => rfl
      | succ k => exact absurd he (hne k)
  | succ j =>
      cases k with
      | zero => exact absurd he.symm (hne j)
      | succ k =>
          have := numbered_inj he
          omega

/-- **The search ends**, and it takes no more turns than there are taken names: everything that was
tried before is one of them. -/
theorem exists_turns (taken : List String) (base : String) :
    ∃ turns ≤ taken.length, freshNumbered taken base = tried base turns
      ∧ tried base turns ∉ taken ∧ ∀ turn < turns, tried base turn ∈ taken := by
  have hbound : ∀ turns, (∀ turn < turns, tried base turn ∈ taken) → turns ≤ taken.length := by
    intro turns hall
    have hnodup : ((List.range turns).map (tried base)).Nodup :=
      List.nodup_range.map (tried_injective base)
    have hsub : (List.range turns).map (tried base) ⊆ taken := by
      intro name hname
      obtain ⟨turn, hturn, rfl⟩ := List.mem_map.mp hname
      exact hall turn (List.mem_range.mp hturn)
    have hle := (hnodup.subperm hsub).length_le
    rwa [List.length_map, List.length_range] at hle
  by_cases hbase : base ∈ taken
  · obtain ⟨n, hn, he⟩ := exists_leastFree_freshNumbered hbase
    obtain ⟨k, rfl⟩ := Nat.exists_eq_add_of_le' hn.two_le
    have htaken : ∀ turn < k + 1, tried base turn ∈ taken := by
      intro turn hturn
      cases turn with
      | zero => exact hbase
      | succ turn => exact hn.taken_of_lt (turn + 2) (Nat.le_add_left 2 turn) (by omega)
    exact ⟨k + 1, hbound _ htaken, he, hn.free, htaken⟩
  · exact ⟨0, Nat.zero_le _, if_neg hbase, hbase, fun turn hturn => absurd hturn turn.not_lt_zero⟩

end Text

/-! ## The fields -/

namespace Trait

/-- What the field for the trait's delegate is called if nothing stands against it. -/
def fieldBase (c : Config) (t : Trait) : String := Text.lowerFirst (c.delegateOf t.name.simple)

/-- The name of a trait's field, after the fields before it. -/
structure Named (c : Config) (before : List String) (t : Trait) (field : String) : Prop where
  plain : t.fieldBase c ∉ before → field = t.fieldBase c
  /-- A base that is taken gets the least number that makes a new name. -/
  numbered : t.fieldBase c ∈ before →
    ∃ n, Text.LeastFree before (t.fieldBase c) n ∧ field = s!"{t.fieldBase c}{n}"
  /-- It has been found after as many turns as there are fields before it, or less. -/
  found : ∃ turns ≤ before.length, field = Text.tried (t.fieldBase c) turns ∧ field ∉ before
    ∧ ∀ turn < turns, Text.tried (t.fieldBase c) turn ∈ before

theorem named_freshNumbered (c : Config) (before : List String) (t : Trait) :
    Named c before t (Text.freshNumbered before (t.fieldBase c)) where
  plain h := if_neg h
  numbered := Text.exists_leastFree_freshNumbered
  found := by
    obtain ⟨turns, hle, he, hfree, htaken⟩ := Text.exists_turns before (t.fieldBase c)
    exact ⟨turns, hle, he, he ▸ hfree, htaken⟩

/-- The fields are those of the traits, in their order and each with a name of its own. -/
structure Numbered (c : Config) (ts : List Trait) (fields : List String) : Prop where
  length : fields.length = ts.length
  nodup : fields.Nodup
  named : ∀ position t, ts[position]? = some t →
    ∃ field, fields[position]? = some field ∧ Named c (fields.take position) t field

/-- **One more trait** gets one more field, and the fields before it stay. -/
theorem Numbered.snoc {c : Config} {ts : List Trait} {fields : List String}
    (h : Numbered c ts fields) (t : Trait) :
    Numbered c (ts ++ [t]) (fields ++ [Text.freshNumbered fields (t.fieldBase c)]) where
  length := by rw [List.length_append, List.length_append, h.length]; rfl
  nodup := Text.nodup_snoc_freshNumbered h.nodup _
  named := by
    intro position u hu
    by_cases hlast : position < ts.length
    · rw [List.getElem?_append_left hlast] at hu
      obtain ⟨field, hfield, hnamed⟩ := h.named position u hu
      have hlast : position < fields.length := h.length ▸ hlast
      refine ⟨field, ?_, ?_⟩
      · rw [List.getElem?_append_left hlast, hfield]
      · rw [List.take_append_of_le_length (Nat.le_of_lt hlast)]
        exact hnamed
    · -- it is the new trait, and all the fields are before its field
      have hposition : position = fields.length := by
        have := (List.getElem?_eq_some_iff.mp hu).1
        rw [List.length_append, List.length_singleton] at this
        rw [h.length]
        omega
      rw [hposition, h.length, List.getElem?_concat_length] at hu
      obtain rfl := Option.some.inj hu
      refine ⟨Text.freshNumbered fields (t.fieldBase c), ?_, ?_⟩
      · rw [hposition, List.getElem?_concat_length]
      · rw [hposition, List.take_left]
        exact named_freshNumbered c fields t

/-- **Every trait of a host gets a field of its own**, in the order of the traits: the field is called
like the trait's delegate if no field before it is, and else has the least number that makes the name
new. -/
theorem numbered_delegateFields (c : Config) (ts : List Trait) :
    Numbered c ts (delegateFields c ts) := by
  induction ts using List.reverseRecOn with
  | nil => exact ⟨rfl, List.nodup_nil, fun _ _ h => nomatch h⟩
  | append_singleton ts t ih =>
      have hsnoc := ih.snoc t
      unfold delegateFields at hsnoc ⊢
      rw [List.foldl_append]
      exact hsnoc

/-- The second box takes the name that the delegate of `Box2` would have had. -/
example : delegateFields { Config.default with delegateSuffix := "2" }
    ([("a", "Box"), ("b", "Box"), ("a", "Box2")].map fun (package, simple) =>
      ⟨.plain ⟨package, simple⟩, simple, [], [], [], []⟩) = ["box2", "box22", "box222"] := by
  decide +kernel

end Trait

end TraitWeaver
