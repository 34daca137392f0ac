import Mathlib.Data.Nat.Find
import TraitWeaver.Proofs.ParameterNames

/-!
# The bounds that superclass arguments take over

A host that extends a generic class may give its arguments by parameters of the generated
class. The class it extends has bounds for its own parameters, which the arguments must
satisfy, so a parameter takes over the bounds in whose place it stands. They speak of the
parameters of that class, for which the arguments are put all at once.

Parameters of the generated class go by name and bounds go by position. If one name is given
in several places, the parameter has the bounds of the first of them, and it has those of
another place exactly if they come out among these.
-/

namespace TraitWeaver

/-! ## Putting types for variables -/

/-- The second reference is the first with values put for variables, all of them at once. -/
inductive TypeRef.Replaced (value : String → TypeRef → Prop) : TypeRef → TypeRef → Prop where
  | declared {name : DeclaredName} {args args' : List TypeRef} {dims : Dims}
      (hargs : List.Forall₂ (Replaced value) args args') :
      Replaced value (.declared name args dims) (.declared name args' dims)
  /-- A value stays as it is, under the array dimensions of the variable. -/
  | value {var : TypeVar} {upper : List TypeRef} {lower : Option TypeRef} {dims : Dims}
      {r : TypeRef} (hr : value var.name r) :
      Replaced value (.param var upper lower dims) (r.under dims)
  | kept {var : TypeVar} {upper upper' : List TypeRef} {lower lower' : Option TypeRef}
      {dims : Dims} (hvar : ∀ r, ¬value var.name r)
      (hupper : List.Forall₂ (Replaced value) upper upper')
      (hlower : Option.Rel (Replaced value) lower lower') :
      Replaced value (.param var upper lower dims) (.param var upper' lower' dims)

theorem forall₂_map_eq_iff {α β : Type} {R : α → β → Prop} {f : α → β} {l : List α}
    {l' : List β} (h : ∀ a ∈ l, ∀ b, R a b ↔ b = f a) : List.Forall₂ R l l' ↔ l' = l.map f := by
  induction l generalizing l' with
  | nil => rw [List.forall₂_nil_left_iff, List.map_nil]
  | cons a l ih =>
      rw [List.forall₂_cons_left_iff, List.map_cons]
      refine ⟨?_, ?_⟩
      · intro hall
        obtain ⟨b, m, hb, hm, rfl⟩ := hall
        rw [(h a List.mem_cons_self b).mp hb,
          (ih fun a' ha' => h a' (List.mem_cons_of_mem _ ha')).mp hm]
      · rintro rfl
        exact ⟨f a, l.map f, (h a List.mem_cons_self _).mpr rfl,
          (ih fun a' ha' => h a' (List.mem_cons_of_mem _ ha')).mpr rfl, rfl⟩

theorem optionRel_map_eq_iff {α β : Type} {R : α → β → Prop} {f : α → β} {o : Option α}
    {o' : Option β} (h : ∀ a, o = some a → ∀ b, R a b ↔ b = f a) :
    Option.Rel R o o' ↔ o' = o.map f := by
  cases o with
  | none => cases o' <;> simp
  | some a => cases o' <;> simp [h a rfl]

namespace TypeRef

variable {value : String → TypeRef → Prop} {g : String → Option TypeRef}

/-- **Rewriting by the names of variables puts values for them**, and there is no other result. -/
theorem replaced_iff (hg : ∀ name r, g name = some r ↔ value name r) {t t' : TypeRef} :
    t.Replaced value t' ↔ t' = t.rewrite fun p => g p.var.name := by
  induction t generalizing t' with
  | declared name args dims ih =>
      have hargs : ∀ args', List.Forall₂ (Replaced value) args args' ↔
          args' = args.map (rewrite fun p => g p.var.name) := fun _ =>
        forall₂_map_eq_iff fun t ht t' => ih t ht
      rw [rewrite_declared]
      refine ⟨?_, ?_⟩
      · intro h
        cases h with
        | declared h => rw [(hargs _).mp h]
      · rintro rfl
        exact .declared ((hargs _).mpr rfl)
  | param var upper lower dims ihu ihl =>
      have hupper : ∀ upper', List.Forall₂ (Replaced value) upper upper' ↔
          upper' = upper.map (rewrite fun p => g p.var.name) := fun _ =>
        forall₂_map_eq_iff fun t ht t' => ihu t ht
      have hlower : ∀ lower', Option.Rel (Replaced value) lower lower' ↔
          lower' = lower.map (rewrite fun p => g p.var.name) := fun _ =>
        optionRel_map_eq_iff fun t ht t' => ihl t ht
      rw [rewrite_param]
      cases hvalue : g var.name with
      | some r =>
          refine ⟨?_, ?_⟩
          · intro h
            cases h with
            | value hr => rw [Option.some.inj (((hg _ _).mpr hr).symm.trans hvalue)]
            | kept hvar _ _ => exact absurd ((hg _ _).mp hvalue) (hvar r)
          · rintro rfl
            exact .value ((hg _ _).mp hvalue)
      | none =>
          have hvar : ∀ r, ¬value var.name r := by
            intro r hr
            cases ((hg _ _).mpr hr).symm.trans hvalue
          refine ⟨?_, ?_⟩
          · intro h
            cases h with
            | value hr => exact absurd hr (hvar _)
            | kept _ hu hl => rw [(hupper _).mp hu, (hlower _).mp hl]
          · rintro rfl
            exact .kept hvar ((hupper _).mpr rfl) ((hlower _).mpr rfl)

end TypeRef

/-! ## Names and positions -/

/-- The position has the name and none before it has. -/
def FirstAt (names : Nat → Option String) (name : String) (position : Nat) : Prop :=
  names position = some name ∧ ∀ j < position, names j ≠ some name

theorem exists_firstAt {names : Nat → Option String} {name : String} {position : Nat}
    (h : names position = some name) : ∃ first, FirstAt names name first := by
  classical
  have hex : ∃ i, names i = some name := ⟨position, h⟩
  exact ⟨Nat.find hex, Nat.find_spec hex, fun _ hj => Nat.find_min hex hj⟩

/-- There is no other first position. -/
theorem FirstAt.unique {names : Nat → Option String} {name : String} {i j : Nat}
    (hi : FirstAt names name i) (hj : FirstAt names name j) : i = j := by
  rcases Nat.lt_trichotomy i j with hlt | he | hlt
  · exact absurd hi.1 (hj.2 i hlt)
  · exact he
  · exact absurd hj.1 (hi.2 j hlt)

theorem firstAt_succ_iff {names : Nat → Option String} {name : String} {position : Nat} :
    FirstAt names name (position + 1) ↔
      names 0 ≠ some name ∧ FirstAt (fun i => names (i + 1)) name position := by
  unfold FirstAt
  refine ⟨?_, ?_⟩
  · intro h
    exact ⟨h.2 0 (Nat.succ_pos _), h.1, fun j hj => h.2 (j + 1) (Nat.succ_lt_succ hj)⟩
  · intro h
    refine ⟨h.2.1, fun j hj => ?_⟩
    cases j with
    | zero => exact h.1
    | succ j => exact h.2.2 j (Nat.lt_of_succ_lt_succ hj)

/-- A name is looked up where it comes first. -/
theorem lookup_zip_eq_some_iff {β : Type} {names : List String} {values : List β}
    {name : String} {value : β} :
    (names.zip values).lookup name = some value ↔
      ∃ i, FirstAt (names[·]?) name i ∧ values[i]? = some value := by
  induction names generalizing values with
  | nil => simp [FirstAt]
  | cons n names ih =>
      cases values with
      | nil => simp
      | cons v values =>
          rw [List.zip_cons_cons, List.lookup_cons]
          by_cases hname : name = n
          · subst hname
            rw [beq_self_eq_true]
            refine ⟨fun h => ⟨0, ⟨rfl, fun j hj => absurd hj (Nat.not_lt_zero j)⟩, h⟩, ?_⟩
            intro hall
            obtain ⟨i, hfirst, hvalue⟩ := hall
            cases i with
            | zero => exact hvalue
            | succ i => exact absurd rfl (firstAt_succ_iff.mp hfirst).1
          · rw [beq_eq_false_iff_ne.mpr hname]
            refine ih.trans ?_
            refine ⟨?_, ?_⟩
            · intro hall
              obtain ⟨i, hfirst, hvalue⟩ := hall
              refine ⟨i + 1, firstAt_succ_iff.mpr ⟨fun he => ?_, hfirst⟩, hvalue⟩
              exact hname (Option.some.inj he).symm
            · intro hall
              obtain ⟨i, hfirst, hvalue⟩ := hall
              cases i with
              | zero => exact absurd (Option.some.inj hfirst.1).symm hname
              | succ i => exact ⟨i, (firstAt_succ_iff.mp hfirst).2, hvalue⟩

namespace Superclass

/-- The name of the parameter of the generated class that gives the argument at a position. -/
def argName? (s : Superclass) (c : Config) (position : Nat) : Option String :=
  s.args[position]?.bind (·.paramName? c position)

/-- The argument is given in the place of the class's first parameter of the name. -/
def StandsFor (s : Superclass) (c : Config) (name : String) (r : TypeRef) : Prop :=
  ∃ i, FirstAt ((s.params.map (·.var.name))[·]?) name i ∧ (s.argRefs c)[i]? = some r

/-- The second reference is the first one in terms of the arguments of the class. -/
def InTermsOf (s : Superclass) (c : Config) : TypeRef → TypeRef → Prop :=
  TypeRef.Replaced (s.StandsFor c)

variable {s : Superclass} {c : Config}

theorem inTermsOf_iff {b r : TypeRef} :
    s.InTermsOf c b r ↔ r = b.rewrite fun q => (s.substitution c).lookup q.var.name :=
  TypeRef.replaced_iff fun _ _ => lookup_zip_eq_some_iff

/-- **The argument at a position is a use of the parameter of its name.** -/
theorem getElem?_argRefs_of_argName? {i : Nat} {name : String} (h : s.argName? c i = some name) :
    (s.argRefs c)[i]? = some (TypeParam.plain name).toRef := by
  obtain ⟨arg, harg, hname⟩ := Option.bind_eq_some_iff.mp h
  rw [argRefs, List.getElem?_map, List.getElem?_zipIdx, harg, Nat.zero_add]
  cases arg with
  | explicit t => cases hname
  | named n =>
      cases hname
      rfl
  | auto =>
      cases hname
      rfl

/-- Of the parameters for arguments, the first of a name is the one for its first position. -/
theorem find?_argParams {name : String} {first : Nat} (h : FirstAt (s.argName? c) name first) :
    (s.argParams c).find? (·.sourceName = name) =
      some ⟨.plain name, s.boundsAt c first, none⟩ := by
  obtain ⟨arg, harg, hname⟩ := Option.bind_eq_some_iff.mp h.1
  obtain ⟨hlt, rfl⟩ := List.getElem?_eq_some_iff.mp harg
  have hfind : s.args.zipIdx.find? (fun e => ((e.1.paramName? c e.2).map fun n =>
      (⟨.plain n, s.boundsAt c e.2, none⟩ : TypeParam)).any (·.sourceName = name)) =
        some (s.args[first], first) := by
    refine List.find?_eq_some_iff_getElem.mpr ⟨?_, first, ?_, ?_, fun j hj => ?_⟩
    · rw [hname]
      exact decide_eq_true rfl
    · rwa [List.length_zipIdx]
    · rw [List.getElem_zipIdx, Nat.zero_add]
    · -- a position before the first has another name or none
      rw [List.getElem_zipIdx, Nat.zero_add]
      have hother := h.2 j hj
      unfold argName? at hother
      rw [List.getElem?_eq_getElem (Nat.lt_trans hj hlt), Option.bind_some] at hother
      dsimp only
      cases hn : s.args[j].paramName? c j with
      | none => rfl
      | some n =>
          rw [hn] at hother
          refine Bool.not_eq_true' _ |>.mpr (decide_eq_false fun he => hother ?_)
          exact congrArg some he
  unfold argParams
  rw [List.find?_filterMap, hfind, Option.bind_some]
  dsimp only
  rw [hname]
  rfl

/-- **A name is listed once, with the bounds of its first position.** -/
theorem filter_typeParams {name : String} {first : Nat} (h : FirstAt (s.argName? c) name first) :
    (s.typeParams c).filter (·.sourceName = name) =
      [⟨.plain name, s.boundsAt c first, none⟩] := by
  refine Host.filter_eq_singleton_of_find?
    (Host.nodup_sourceName_foldl_addParam (s.argParams c) List.nodup_nil) ?_
  exact (Host.find?_foldl_addParam _ _ _).trans (find?_argParams h)

/-- **The bounds at a position are those of the parameter there, in terms of the arguments.** -/
theorem forall₂_inTermsOf_boundsAt {position : Nat} {p : TypeParam}
    (hp : s.params[position]? = some p) :
    List.Forall₂ (s.InTermsOf c) p.upper (s.boundsAt c position) := by
  have hall : ∀ bounds, List.Forall₂ (s.InTermsOf c) p.upper bounds ↔
      bounds = p.upper.map (·.rewrite fun q => (s.substitution c).lookup q.var.name) :=
    fun _ => forall₂_map_eq_iff fun b _ r => inTermsOf_iff
  unfold boundsAt
  rw [hp]
  exact (hall _).mpr rfl

/-- What a bound is in terms of the arguments is determined. -/
theorem InTermsOf.unique {b r r' : TypeRef} (h : s.InTermsOf c b r) (h' : s.InTermsOf c b r') :
    r = r' :=
  (inTermsOf_iff.mp h).trans (inTermsOf_iff.mp h').symm

end Superclass

namespace SuperclassDecl

/-- If parameters are declared, there is one wherever there is an argument. -/
theorem Resolves.exists_param {d : SuperclassDecl} {s : Superclass} (h : d.Resolves s)
    (hd : d.typeParams ≠ []) {c : Config} {position : Nat} {name : String}
    (hname : s.argName? c position = some name) : ∃ p, s.params[position]? = some p := by
  obtain ⟨arg, harg, -⟩ := Option.bind_eq_some_iff.mp hname
  obtain ⟨hlt, -⟩ := List.getElem?_eq_some_iff.mp harg
  have hne : s.params ≠ [] := fun he => hd (List.forall₂_nil_right_iff.mp (he ▸ h.params))
  exact ⟨_, List.getElem?_eq_getElem (h.arity.resolve_left hne ▸ hlt)⟩

/--
**The bounds of a superclass argument.** An argument that is given by name is a use of one
parameter of the generated class. This parameter has the bounds of the class's parameter at the
first position where the name is given, in terms of the arguments, and of another position it has
the bounds exactly if each of them is in those terms one of the first.
-/
theorem carries_bounds_iff {d : SuperclassDecl} {host : String} {s : Superclass}
    (hr : d.resolve host = .ok s) (hd : d.typeParams ≠ []) (c : Config) {position : Nat}
    {name : String} (hname : s.argName? c position = some name) :
    (s.argRefs c)[position]? = some (TypeParam.plain name).toRef
      ∧ ∃ p first p₀ q, s.params[position]? = some p
        ∧ FirstAt (s.argName? c) name first ∧ s.params[first]? = some p₀
        ∧ (s.typeParams c).filter (·.sourceName = name) = [q]
        ∧ List.Forall₂ (s.InTermsOf c) p₀.upper q.upper
        ∧ ((∀ b ∈ p.upper, ∃ r ∈ q.upper, s.InTermsOf c b r) ↔
            ∀ b ∈ p.upper, ∃ b₀ ∈ p₀.upper, ∃ r, s.InTermsOf c b r ∧ s.InTermsOf c b₀ r) := by
  have hres := resolves_of_resolve hr
  obtain ⟨first, hfirst⟩ := exists_firstAt hname
  obtain ⟨p, hp⟩ := hres.exists_param hd hname
  obtain ⟨p₀, hp₀⟩ := hres.exists_param hd hfirst.1
  have hbounds : List.Forall₂ (s.InTermsOf c) p₀.upper (s.boundsAt c first) :=
    Superclass.forall₂_inTermsOf_boundsAt hp₀
  refine ⟨Superclass.getElem?_argRefs_of_argName? hname, p, first, p₀, _, hp, hfirst, hp₀,
    Superclass.filter_typeParams hfirst, hbounds, forall₂_congr fun b _ => ⟨?_, ?_⟩⟩
  · intro hall
    obtain ⟨r, hr, hb⟩ := hall
    obtain ⟨b₀, hb₀, hr₀⟩ := exists_rel_of_mem hbounds hr
    exact ⟨b₀, hb₀, r, hb, hr₀⟩
  · intro hall
    obtain ⟨b₀, hb₀, r, hb, hr₀⟩ := hall
    obtain ⟨r', hr', h'⟩ := exists_rel_of_mem hbounds.flip hb₀
    exact ⟨r', hr', Superclass.InTermsOf.unique h' hr₀ ▸ hb⟩

/-! ### A pair -/

/-- A class with two parameters, both of which are bounded, one by a type with the other. -/
def pair (args : List ArgumentDecl) : SuperclassDecl :=
  { name := "app.Pair"
    typeParams := [⟨"K", [.declared "java.lang.Comparable" [.typeVariable "V" none none]]⟩,
      ⟨"V", [.declared "java.io.Serializable" []]⟩]
    args }

/-- The arguments have the names of the class's parameters, the other way round. -/
theorem carries_bounds_iff_swapped :
    ∃ s, (pair [.named "V", .named "K"]).resolve "app.Crate" = .ok s
      ∧ s.typeParams .bare =
        [⟨.plain "V", [.declared ⟨"java.lang", "Comparable"⟩ [(TypeParam.plain "K").toRef] .scalar],
            none⟩,
          ⟨.plain "K", [.plain ⟨"java.io", "Serializable"⟩], none⟩]
      ∧ ∃ p q, s.params[0]? = some p
        ∧ (s.typeParams .bare).filter (·.sourceName = "V") = [q]
        ∧ ∀ b ∈ p.upper, ∃ r ∈ q.upper, s.InTermsOf .bare b r := by
  have hresolve : ((pair [.named "V", .named "K"]).resolve "app.Crate").toOption.map (fun s =>
      (s.argName? .bare 0, s.typeParams .bare)) =
        some (some "V", [⟨.plain "V",
          [.declared ⟨"java.lang", "Comparable"⟩ [(TypeParam.plain "K").toRef] .scalar], none⟩,
          ⟨.plain "K", [.plain ⟨"java.io", "Serializable"⟩], none⟩]) := by
    decide +kernel
  obtain ⟨s, hr, he⟩ := Option.map_eq_some_iff.mp hresolve
  obtain ⟨hname, hparams⟩ := Prod.mk.inj he
  have hr := toOption_eq_some_iff.mp hr
  obtain ⟨-, p, first, p₀, q, hp, hfirst, hp₀, hq, -, hcarries⟩ :=
    carries_bounds_iff hr (List.cons_ne_nil _ _) .bare hname
  -- no position comes before this one
  obtain rfl := hfirst.unique ⟨hname, fun j hj => absurd hj (Nat.not_lt_zero j)⟩
  obtain rfl := Option.some.inj (hp₀.symm.trans hp)
  refine ⟨s, hr, hparams, p₀, q, hp, hq, hcarries.mpr fun b hb => ?_⟩
  obtain ⟨r, hbr⟩ : ∃ r, s.InTermsOf .bare b r := ⟨_, Superclass.inTermsOf_iff.mpr rfl⟩
  exact ⟨b, hb, r, hbr, hbr⟩

/-- If one name is given for both, only the first bound is left, and what is written does not
satisfy the second. -/
theorem not_forall_carries_bounds :
    (¬∀ (d : SuperclassDecl) (host : String) (s : Superclass) (c : Config),
        d.resolve host = .ok s → d.typeParams ≠ [] → ∀ position name p q,
        s.argName? c position = some name → s.params[position]? = some p →
        q ∈ s.typeParams c → q.sourceName = name →
        ∀ b ∈ p.upper, ∃ r ∈ q.upper, s.InTermsOf c b r)
      ∧ (HostDecl.composing ["lib.Box"] (some (pair [.named "X", .named "X"]))).superclassText?
          (.ofDecls [.generic "lib.Box" "T"]) =
        some (String.join
          ["package app;\n\n",
            "import lib.BoxDelegate;\n",
            "import lib.BoxTrait;\n\n",
            "public abstract class AbstractCrate<X extends Comparable<X>, Box_T> ",
            "extends Pair<X, X> implements BoxTrait<Box_T> \x7b\n",
            "    private final BoxDelegate<Box_T> boxDelegate = new BoxDelegate<>(this);\n",
            "\x7d\n"]) := by
  refine ⟨fun hall => ?_, by decide +kernel⟩
  have hresolve : ((pair [.named "X", .named "X"]).resolve "app.Crate").toOption.map (fun s =>
      (s.argName? .bare 1, decide (∃ p ∈ s.params[1]?, ∃ q ∈ s.typeParams .bare,
        q.sourceName = "X" ∧ ∃ b ∈ p.upper,
          (b.rewrite fun v => (s.substitution .bare).lookup v.var.name) ∉ q.upper))) =
        some (some "X", true) := by
    decide +kernel
  obtain ⟨s, hr, he⟩ := Option.map_eq_some_iff.mp hresolve
  obtain ⟨hname, hlost⟩ := Prod.mk.inj he
  obtain ⟨p, hp, q, hq, hqname, b, hb, hnot⟩ := of_decide_eq_true hlost
  obtain ⟨r, hr', hbr⟩ := hall _ _ s .bare (toOption_eq_some_iff.mp hr) (List.cons_ne_nil _ _)
    1 "X" p q hname hp hq hqname b hb
  exact hnot (Superclass.inTermsOf_iff.mp hbr ▸ hr')

end SuperclassDecl

end TraitWeaver
