import TraitWeaver.Proofs.MethodResolution

/-!
# Which declarations are in order

A method is taken in as a whole or not at all: one type in it that cannot be resolved
is enough to refuse it. An interface is likewise refused as a whole, for its own name,
its arguments or one of its methods.

Whether this happens is decided by the declaration alone. The trait that a method is
resolved for only gives its qualifier, and an interface what is put for its parameters;
neither can make a type resolvable or spoil one. So resolvability is said here without
them, and everything that runs over members of a trait can ask it of a member in advance.
-/

namespace TraitWeaver

theorem isOk_iff {ε α : Type} {x : Except ε α} : x.isOk = true ↔ ∃ a, x = .ok a := by
  cases x with
  | error e => simp [Except.isOk, Except.toBool]
  | ok a => simp [Except.isOk, Except.toBool]

theorem exists_bind_eq_ok_iff {ε α β : Type} {x : Except ε α} {f : α → Except ε β} :
    (∃ b, (x >>= f) = .ok b) ↔ ∃ a, x = .ok a ∧ ∃ b, f a = .ok b := by
  simp only [bind_eq_ok]
  exact ⟨fun ⟨b, a, ha, hb⟩ => ⟨a, ha, b, hb⟩, fun ⟨a, ha, b, hb⟩ => ⟨b, a, ha, hb⟩⟩

/-- A list goes through if and only if each of its elements does. -/
theorem exists_mapM_eq_ok_iff {ε α β : Type} {f : α → Except ε β} {as : List α} :
    (∃ bs, as.mapM f = .ok bs) ↔ ∀ a ∈ as, ∃ b, f a = .ok b := by
  simp only [mapM_eq_ok_iff]
  exact exists_forall₂_iff

/-! ## Types and type parameters -/

/-- The spelling stands for a type. -/
def SourceType.resolvable (t : SourceType) : Bool := t.resolve.isOk

/-- The parameter has a name of its own, and its bounds are types or intersections of types. -/
def TypeParamDecl.resolvable (d : TypeParamDecl) : Bool :=
  d.name != "" && d.name != TypeVar.wildcardName
    && d.bounds.all fun bound => (SourceType.resolveUpper (some bound)).isOk

theorem SourceType.resolvable_iff {t : SourceType} (q : String) (inst : Instantiation) :
    t.resolvable = true ↔ ∃ r, t.resolveIn q inst = .ok r := by
  simp only [resolvable, isOk_iff, resolveIn_eq_ok_iff]
  refine ⟨?_, ?_⟩
  · rintro ⟨r, hr⟩
    exact ⟨_, r, hr, rfl⟩
  · rintro ⟨_, r, hr, -⟩
    exact ⟨r, hr⟩

theorem TypeParamDecl.resolvable_iff {d : TypeParamDecl} (q : String) (inst : Instantiation) :
    d.resolvable = true ↔ ∃ p, d.resolveIn q inst = .ok p := by
  have hbounds : (d.bounds.all fun bound => (SourceType.resolveUpper (some bound)).isOk) = true ↔
      ∃ bounds, d.bounds.mapM (fun bound => SourceType.resolveUpper (some bound)) = .ok bounds := by
    simp only [List.all_eq_true, isOk_iff, exists_mapM_eq_ok_iff]
  simp only [resolvable, Bool.and_eq_true, bne_iff_ne, hbounds, mapM_eq_ok_iff,
    resolveIn_eq_ok_iff, resolve_eq_ok_iff]
  refine ⟨?_, ?_⟩
  · rintro ⟨⟨hname, hwildcard⟩, bounds, hall⟩
    exact ⟨_, _, ⟨hname, bounds, hall, rfl⟩, hwildcard, rfl⟩
  · rintro ⟨_, _, ⟨hname, bounds, hall, -⟩, hwildcard, -⟩
    exact ⟨⟨hname, hwildcard⟩, bounds, hall⟩

/-! ## Methods -/

/-- All types of the method are in order: those of its parameters, what it throws and what it
returns, and the bounds of its own type parameters. -/
def MethodDecl.resolvable (d : MethodDecl) : Bool :=
  d.typeParams.all (·.resolvable) && d.params.all (·.type.resolvable)
    && d.throws.all (·.resolvable) && d.returns.resolvable

theorem exists_resolveParameters_iff (params : List ParameterDecl) (varargs : Bool) (q : String)
    (inst : Instantiation) :
    (∃ ps, resolveParameters params varargs q inst = .ok ps) ↔
      ∀ p ∈ params, p.type.resolvable = true := by
  unfold resolveParameters
  rw [exists_mapM_eq_ok_iff]
  simp only [SourceType.resolvable_iff q inst, bind_eq_ok, pure_eq_ok]
  -- the position of a parameter has no part in whether its type resolves
  refine ⟨?_, ?_⟩
  · intro h p hp
    obtain ⟨index, hindex⟩ := List.mem_iff_getElem?.mp hp
    obtain ⟨_, type, htype, -⟩ := h (p, index) (List.mk_mem_zipIdx_iff_getElem?.mpr hindex)
    exact ⟨type, htype⟩
  · intro h e he
    obtain ⟨type, htype⟩ := h e.1 (List.fst_mem_of_mem_zipIdx he)
    exact ⟨_, type, htype, rfl⟩

/-- **Whether a method resolves does not depend on where.** -/
theorem MethodDecl.resolvable_iff {d : MethodDecl} (q : String) (inst : Instantiation) :
    d.resolvable = true ↔ ∃ m, d.resolveIn q inst = .ok m := by
  have htypeParams : (∀ p ∈ d.typeParams, p.resolvable = true) ↔
      ∃ ps, d.typeParams.mapM (·.resolveIn q inst) = .ok ps := by
    simp only [exists_mapM_eq_ok_iff, TypeParamDecl.resolvable_iff q inst]
  have hthrows : (∀ t ∈ d.throws, t.resolvable = true) ↔
      ∃ ts, d.throws.mapM (·.resolveIn q inst) = .ok ts := by
    simp only [exists_mapM_eq_ok_iff, SourceType.resolvable_iff q inst]
  have hparams := exists_resolveParameters_iff d.params d.varargs q inst
  have hreturns := SourceType.resolvable_iff (t := d.returns) q inst
  unfold resolvable resolveIn
  simp only [Bool.and_eq_true, List.all_eq_true, htypeParams, hthrows, ← hparams, hreturns,
    bind_eq_ok, pure_eq_ok]
  refine ⟨?_, ?_⟩
  · rintro ⟨⟨⟨⟨typeParams, h₁⟩, params, h₂⟩, throws, h₃⟩, returns, h₄⟩
    exact ⟨_, typeParams, h₁, params, h₂, throws, h₃, returns, h₄, rfl⟩
  · rintro ⟨_, typeParams, h₁, params, h₂, throws, h₃, returns, h₄, -⟩
    exact ⟨⟨⟨⟨typeParams, h₁⟩, params, h₂⟩, throws, h₃⟩, returns, h₄⟩

theorem MethodDecl.isOk_resolveIn (d : MethodDecl) (q : String) (inst : Instantiation) :
    (d.resolveIn q inst).isOk = d.resolvable :=
  Bool.eq_iff_iff.mpr (isOk_iff.trans (resolvable_iff q inst).symm)

/-! ## Interfaces -/

/-- The interface has a name, arguments for all of its parameters or for none, and only types that
are in order, both in the arguments and in the methods that a trait would have from it. -/
def InterfaceDecl.resolvable (d : InterfaceDecl) : Bool :=
  (DeclaredName.ofQualified d.name).isOk
    && (d.args.isEmpty || d.args.length = d.typeParams.length)
    && d.args.all (·.resolvable) && (d.methods.filter (!·.isOwn)).all (·.resolvable)

/-- **Whether an interface resolves does not depend on the trait.** -/
theorem InterfaceDecl.resolvable_iff {d : InterfaceDecl} (q : String) :
    d.resolvable = true ↔ ∃ r, d.resolveIn q = .ok r := by
  have hargs : (∀ a ∈ d.args, a.resolvable = true) ↔
      ∃ args, d.args.mapM (SourceType.resolveIn · q []) = .ok args := by
    simp only [exists_mapM_eq_ok_iff, SourceType.resolvable_iff q []]
  unfold resolvable
  simp only [Bool.and_eq_true, List.all_eq_true, isOk_iff, hargs]
  refine ⟨?_, ?_⟩
  · rintro ⟨⟨⟨⟨name, hname⟩, harity⟩, args, hargs⟩, hmethods⟩
    have hfits : ¬(!d.args.isEmpty && d.args.length ≠ d.typeParams.length) = true := by
      revert harity
      cases d.args.isEmpty <;> simp
    unfold resolveIn
    refine exists_bind_eq_ok_iff.mpr ⟨name, mapError_eq_ok.mpr hname, ?_⟩
    rw [if_neg hfits]
    refine exists_bind_eq_ok_iff.mpr ⟨args, mapError_eq_ok.mpr hargs, ?_⟩
    refine exists_bind_eq_ok_iff.mpr ((exists_mapM_eq_ok_iff.mpr ?_).imp fun ms hms => ⟨hms, _, rfl⟩)
    intro m hm
    obtain ⟨m', hm'⟩ := (MethodDecl.resolvable_iff q (d.instantiation args)).mp (hmethods m hm)
    exact exists_bind_eq_ok_iff.mpr ⟨m', mapError_eq_ok.mpr hm', _, rfl⟩
  · rintro ⟨r, hr⟩
    unfold resolveIn at hr
    obtain ⟨name, hname, hr⟩ := bind_eq_ok.mp hr
    by_cases harity : (!d.args.isEmpty && d.args.length ≠ d.typeParams.length) = true
    · rw [if_pos harity] at hr
      cases hr
    · rw [if_neg harity] at hr
      obtain ⟨args, hargs, hr⟩ := bind_eq_ok.mp hr
      obtain ⟨ms, hms, -⟩ := bind_eq_ok.mp hr
      refine ⟨⟨⟨⟨name, mapError_eq_ok.mp hname⟩, ?_⟩, args, mapError_eq_ok.mp hargs⟩, ?_⟩
      · revert harity
        cases d.args.isEmpty <;> simp
      · intro m hm
        obtain ⟨_, hone⟩ := exists_mapM_eq_ok_iff.mp ⟨ms, hms⟩ m hm
        obtain ⟨m', hm', -⟩ := bind_eq_ok.mp hone
        exact (MethodDecl.resolvable_iff q (d.instantiation args)).mpr ⟨m', mapError_eq_ok.mp hm'⟩

end TraitWeaver
