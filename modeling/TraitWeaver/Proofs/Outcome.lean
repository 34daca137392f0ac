import Mathlib.Data.List.Forall2

/-!
# When a computation that may fail succeeds

Checking a declaration is a chain of steps of which each may refuse. These
lemmas take such a chain apart: the whole succeeds exactly if every step does.
-/

namespace TraitWeaver

variable {ε ε' α β : Type}

/-! ## Related lists and options -/

section

variable {R S : α → β → Prop} {as : List α} {bs : List β}

theorem exists_rel_of_getElem? (h : List.Forall₂ R as bs) {i : Nat} {b : β}
    (hb : bs[i]? = some b) : ∃ a, as[i]? = some a ∧ R a b := by
  induction h generalizing i with
  | nil => cases hb
  | @cons a _ _ _ hr _ ih =>
      cases i with
      | zero =>
          obtain rfl := Option.some.inj hb
          exact ⟨a, rfl, hr⟩
      | succ i => exact ih hb

theorem exists_rel_of_mem (h : List.Forall₂ R as bs) {b : β} (hb : b ∈ bs) : ∃ a ∈ as, R a b := by
  obtain ⟨i, hi⟩ := List.mem_iff_getElem?.mp hb
  obtain ⟨a, ha, hr⟩ := exists_rel_of_getElem? h hi
  exact ⟨a, List.mem_of_getElem? ha, hr⟩

/-- A list is related to some other if and only if each of its elements is to something. -/
theorem exists_forall₂_iff : (∃ bs, List.Forall₂ R as bs) ↔ ∀ a ∈ as, ∃ b, R a b := by
  induction as with
  | nil => simp
  | cons a as ih =>
      simp only [List.forall₂_cons_left_iff, List.forall_mem_cons, ← ih]
      refine ⟨?_, ?_⟩
      · rintro ⟨_, b, bs, hb, hbs, rfl⟩
        exact ⟨⟨b, hb⟩, bs, hbs⟩
      · rintro ⟨⟨b, hb⟩, bs, hbs⟩
        exact ⟨b :: bs, b, bs, hb, hbs, rfl⟩

theorem forall₂_imp_of_mem (h : List.Forall₂ R as bs) (himp : ∀ a ∈ as, ∀ b, R a b → S a b) :
    List.Forall₂ S as bs :=
  ((List.forall₂_and_left as bs).mpr ⟨himp, h⟩).imp fun _ _ hab => hab.1 _ hab.2

theorem exists_optionRel_iff {o : Option α} :
    (∃ o', Option.Rel R o o') ↔ ∀ a, o = some a → ∃ b, R a b := by
  cases o with
  | none => exact iff_of_true ⟨none, .none⟩ nofun
  | some a =>
      simp only [Option.some.injEq, forall_eq']
      refine ⟨?_, fun ⟨b, hb⟩ => ⟨some b, .some hb⟩⟩
      rintro ⟨_, hb⟩
      cases hb with
      | some hb => exact ⟨_, hb⟩

theorem optionRel_imp_of_mem {o : Option α} {o' : Option β} (h : Option.Rel R o o')
    (himp : ∀ a, o = some a → ∀ b, R a b → S a b) : Option.Rel S o o' := by
  cases h with
  | none => exact .none
  | some hab => exact .some (himp _ rfl _ hab)

theorem optionRel_map_iff {γ δ : Type} {T : γ → δ → Prop} {f : α → γ} {g : β → δ} {o : Option α}
    {o' : Option β} :
    Option.Rel T (o.map f) (o'.map g) ↔ Option.Rel (fun a b => T (f a) (g b)) o o' := by
  cases o <;> cases o' <;> simp

theorem optionRel_eq_iff {o o' : Option α} : Option.Rel (· = ·) o o' ↔ o = o' := by
  cases o <;> cases o' <;> simp

end

/-! ## Chains of steps -/

theorem bind_eq_ok {x : Except ε α} {f : α → Except ε β} {b : β} :
    (x >>= f) = .ok b ↔ ∃ a, x = .ok a ∧ f a = .ok b := by
  cases x with
  | error e =>
      refine ⟨?_, ?_⟩
      · intro h
        cases h
      · intro hall
        obtain ⟨_, h, _⟩ := hall
        cases h
  | ok a =>
      refine ⟨?_, ?_⟩
      · intro h
        exact ⟨a, rfl, h⟩
      · intro hall
        obtain ⟨a', ha, h⟩ := hall
        rw [Except.ok.inj ha]
        exact h

theorem pure_eq_ok {a b : α} : (pure a : Except ε α) = .ok b ↔ a = b :=
  ⟨Except.ok.inj, congrArg Except.ok⟩

theorem map_eq_ok {x : Except ε α} {f : α → β} {b : β} :
    x.map f = .ok b ↔ ∃ a, x = .ok a ∧ f a = b := by
  cases x with
  | error e => simp [Except.map]
  | ok a => simp [Except.map]

/-- Another wording of the error does not touch success. -/
theorem mapError_eq_ok {x : Except ε α} {f : ε → ε'} {a : α} :
    x.mapError f = .ok a ↔ x = .ok a := by
  cases x with
  | error e =>
      refine ⟨?_, ?_⟩
      · intro h
        cases h
      · intro h
        cases h
  | ok a =>
      refine ⟨?_, ?_⟩
      · intro h
        rw [Except.ok.inj h]
      · intro h
        rw [Except.ok.inj h]
        rfl

theorem toOption_eq_some_iff {x : Except ε α} {a : α} : x.toOption = some a ↔ x = .ok a := by
  cases x with
  | error e => simp [Except.toOption]
  | ok b => simp [Except.toOption]

/-- A list goes through exactly if each of its elements does. -/
theorem mapM_eq_ok_iff {f : α → Except ε β} {as : List α} {bs : List β} :
    as.mapM f = .ok bs ↔ List.Forall₂ (fun a b => f a = .ok b) as bs := by
  induction as generalizing bs with
  | nil =>
      rw [List.mapM_nil, pure_eq_ok, List.forall₂_nil_left_iff]
      exact eq_comm
  | cons a as ih =>
      rw [List.mapM_cons, bind_eq_ok, List.forall₂_cons_left_iff]
      refine exists_congr (fun b => ?_)
      rw [bind_eq_ok]
      refine ⟨?_, ?_⟩
      · rintro ⟨hb, bs', hbs, he⟩
        exact ⟨bs', hb, ih.mp hbs, (pure_eq_ok.mp he).symm⟩
      · rintro ⟨bs', hb, hbs, he⟩
        exact ⟨hb, bs', ih.mpr hbs, pure_eq_ok.mpr he.symm⟩

/-- A list that does not go through has the error of one of its elements. -/
theorem exists_of_mapM_eq_error {f : α → Except ε β} {as : List α} {e : ε}
    (h : as.mapM f = .error e) : ∃ a ∈ as, f a = .error e := by
  induction as with
  | nil => cases h
  | cons a as ih =>
      rw [List.mapM_cons] at h
      cases ha : f a with
      | error e' =>
          rw [ha] at h
          cases h
          exact ⟨a, List.mem_cons_self, ha⟩
      | ok b =>
          rw [ha] at h
          cases hrest : as.mapM f with
          | error e' =>
              rw [hrest] at h
              cases h
              obtain ⟨a', hmem, ha'⟩ := ih hrest
              exact ⟨a', List.mem_cons_of_mem _ hmem, ha'⟩
          | ok bs =>
              rw [hrest] at h
              cases h

end TraitWeaver
