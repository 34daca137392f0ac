import Mathlib.Data.List.Perm.Basic
import TraitWeaver.Proofs.RoundSteps

/-!
# Steps that do not get in each other's way

A round runs through its traits and through its hosts, and every step can see all
that the steps before it did. Yet the order need not matter. This module says when
it does not: if two steps for different names, taken one after the other, leave the
same behind in either order, and neither changes what the other one writes down.

Then a loop over declarations of different names may take them in any order. It
ends in the same state, and what it has written down is the same up to the order
of the lines.
-/

namespace TraitWeaver

/-! ## Results in another order -/

namespace RoundResult

/-- The same was written down, possibly in another order. -/
structure Reordered (r r' : RoundResult) : Prop where
  generated : r.generated.Perm r'.generated
  skippedTraits : r.skippedTraits = r'.skippedTraits
  skippedHosts : r.skippedHosts = r'.skippedHosts
  diagnostics : r.diagnostics.Perm r'.diagnostics

theorem Reordered.refl (r : RoundResult) : r.Reordered r where
  generated := List.Perm.refl _
  skippedTraits := rfl
  skippedHosts := rfl
  diagnostics := List.Perm.refl _

theorem Reordered.trans {a b c : RoundResult} (h : a.Reordered b) (h' : b.Reordered c) :
    a.Reordered c where
  generated := h.generated.trans h'.generated
  skippedTraits := h.skippedTraits.trans h'.skippedTraits
  skippedHosts := h.skippedHosts.trans h'.skippedHosts
  diagnostics := h.diagnostics.trans h'.diagnostics

theorem Reordered.append {a a' b b' : RoundResult} (h : a.Reordered a') (h' : b.Reordered b') :
    (a.append b).Reordered (a'.append b') where
  generated := h.generated.append h'.generated
  skippedTraits := congrArg₂ (· + ·) h.skippedTraits h'.skippedTraits
  skippedHosts := congrArg₂ (· + ·) h.skippedHosts h'.skippedHosts
  diagnostics := h.diagnostics.append h'.diagnostics

theorem append_assoc (a b c : RoundResult) : (a.append b).append c = a.append (b.append c) := by
  unfold append
  rw [List.append_assoc, List.append_assoc, Nat.add_assoc, Nat.add_assoc]

theorem reordered_append_comm (a b : RoundResult) : (a.append b).Reordered (b.append a) where
  generated := List.perm_append_comm
  skippedTraits := Nat.add_comm _ _
  skippedHosts := Nat.add_comm _ _
  diagnostics := List.perm_append_comm

end RoundResult

open RoundResult

/-! ## Loops -/

/-- A loop over declarations: how a step changes the state, and what it writes down. -/
structure Loop (S α : Type) where
  next : S → α → S
  noted : S → α → RoundResult

namespace Loop

variable {S α : Type} {l : Loop S α}

def step (l : Loop S α) (state : S × RoundResult) (a : α) : S × RoundResult :=
  (l.next state.1 a, state.2.append (l.noted state.1 a))

/-- The state does not depend on what has been written down. -/
theorem foldl_step_fst (l : Loop S α) (as : List α) (x : S × RoundResult) :
    (as.foldl l.step x).1 = as.foldl l.next x.1 := by
  induction as generalizing x with
  | nil => rfl
  | cons a as ih => exact ih (l.step x a)

/-- Both have names, and they are different. Something without a name is apart from everything. -/
def Apart (key : α → Option String) (a b : α) : Prop :=
  ∀ k, key a = some k → ∀ k', key b = some k' → k ≠ k'

theorem Apart.symm {key : α → Option String} {a b : α} (h : Apart key a b) : Apart key b a :=
  fun k hk k' hk' he => h k' hk' k hk he.symm

/-- Steps for different names do not get in each other's way. -/
structure Independent (l : Loop S α) (key : α → Option String) : Prop where
  next_comm : ∀ {a b}, Apart key a b → ∀ s, l.next (l.next s a) b = l.next (l.next s b) a
  noted_next : ∀ {a b}, Apart key a b → ∀ s, l.noted (l.next s a) b = l.noted s b

/-- Two loops have come to the same state, and have written down the same. -/
def Agree (x y : S × RoundResult) : Prop := x.1 = y.1 ∧ x.2.Reordered y.2

theorem Agree.step {x y : S × RoundResult} (h : Agree x y) (l : Loop S α) (a : α) :
    Agree (l.step x a) (l.step y a) := by
  obtain ⟨hstate, hresult⟩ := h
  refine ⟨congrArg (l.next · a) hstate, hresult.append ?_⟩
  rw [hstate]
  exact Reordered.refl _

theorem Agree.foldl_step {x y : S × RoundResult} (h : Agree x y) (l : Loop S α) (as : List α) :
    Agree (as.foldl l.step x) (as.foldl l.step y) := by
  induction as generalizing x y with
  | nil => exact h
  | cons a as ih => exact ih (h.step l a)

variable {key : α → Option String}

/-- Two steps for different names agree in either order. -/
theorem Independent.step_step (hl : l.Independent key) {a b : α} (hab : Apart key a b)
    {x y : S × RoundResult} (h : Agree x y) :
    Agree (l.step (l.step x a) b) (l.step (l.step y b) a) := by
  obtain ⟨s, r⟩ := x
  obtain ⟨s', r'⟩ := y
  obtain ⟨hstate, hresult⟩ := h
  obtain rfl : s = s' := hstate
  refine ⟨hl.next_comm hab s, ?_⟩
  show ((r.append (l.noted s a)).append (l.noted (l.next s a) b)).Reordered
    ((r'.append (l.noted s b)).append (l.noted (l.next s b) a))
  rw [hl.noted_next hab, hl.noted_next hab.symm, append_assoc, append_assoc]
  exact hresult.append (reordered_append_comm _ _)

/-- **Independent steps may be taken in any order.** -/
theorem Independent.foldl_step_perm (hl : l.Independent key) {as bs : List α} (hperm : as.Perm bs)
    (hnodup : (as.filterMap key).Nodup) {x y : S × RoundResult} (h : Agree x y) :
    Agree (as.foldl l.step x) (bs.foldl l.step y) := by
  induction hperm generalizing x y with
  | nil => exact h
  | cons a _ ih =>
      have hrest := hnodup.sublist ((List.sublist_cons_self a _).filterMap key)
      exact ih hrest (h.step l a)
  | swap a b cs =>
      have hapart : Apart key b a :=
        (List.pairwise_cons.mp (List.pairwise_filterMap.mp hnodup)).1 a List.mem_cons_self
      -- the two steps come to the same, and so does all that follows
      exact (hl.step_step hapart h).foldl_step l cs
  | trans hab _ ihab ihbc =>
      obtain ⟨hstate, hresult⟩ := ihab hnodup h
      obtain ⟨hstate', hresult'⟩ := ihbc ((hab.filterMap key).nodup_iff.mp hnodup)
        ⟨rfl, Reordered.refl y.2⟩
      exact ⟨hstate.trans hstate', hresult.trans hresult'⟩

end Loop

end TraitWeaver
