import TraitWeaver.Artifact.Delegate
import TraitWeaver.Artifact.Interface
import TraitWeaver.Artifact.Superclass
import TraitWeaver.Proofs.Merging
import TraitWeaver.Proofs.Preference
import TraitWeaver.Proofs.TraitScope

/-!
# Generated files are closed

A file is closed if every variable that occurs in it is declared under the name
that it is written with: by the type of the file, or by the method in which it
occurs. The two files of a trait declare the trait's parameters, so this is what
`Trait.Scoped` says of the trait. The superclass of a host is the harder case:

* its parameters are merged by name, so a variable may be declared by a parameter
  that comes from somewhere else;
* bounds of the class that it extends are put in terms of the arguments, which
  are parameters made up for the host;
* its traits are not those of the index, since some have another qualifier.

All that is asked of the declarations is that they are well scoped themselves.
-/

namespace TraitWeaver

/-! ## Types in source -/

mutual

/-- The types that occur in an expression. -/
def Expr.types : Expr → List TypeRef
  | .literal _ | .this => []
  | .reference receiver _ => receiver.types
  | .assign target value => target.types ++ value.types
  | .cast type operand => type :: operand.types
  | .construct type args _ => type :: Expr.typesOfAll args
  | .call receiver _ args => receiver.types ++ Expr.typesOfAll args
  | .newArray element sizes items =>
    element :: (Expr.typesOfAll sizes ++ Expr.typesOfAll items)
  | .element array index => array.types ++ index.types
  | .result value => Expr.typesOfOption value

def Expr.typesOfAll : List Expr → List TypeRef
  | [] => []
  | e :: es => e.types ++ Expr.typesOfAll es

def Expr.typesOfOption : Option Expr → List TypeRef
  | none => []
  | some e => e.types

def Receiver.types : Receiver → List TypeRef
  | .none | .this | .super => []
  | .static type => [type]
  | .expr e => e.types

end

def TypeHeading.types (h : TypeHeading) : List TypeRef :=
  h.typeParams.flatMap (·.bounds) ++ (h.superclass.toList ++ h.interfaces)

def Field.types (f : Field) : List TypeRef := f.type :: Expr.typesOfOption f.value

def MethodHeading.types (h : MethodHeading) : List TypeRef :=
  h.annotations.map (·.toRef) ++
    (h.typeParams.flatMap (·.bounds) ++ (h.returns.toList ++ h.params.map (·.type)) ++ h.throws)

/-- Every variable of the types is written as one of the names. -/
def TypeRef.WrittenAs (ts : List TypeRef) (names : List String) : Prop :=
  ∀ t ∈ ts, ∀ v ∈ t.vars, v.sourceName ∈ names

namespace Member

mutual

/-- Every variable of the member is declared by it, or is one of those around it. -/
def Closed (outer : List String) : Member → Prop
  | .field f => TypeRef.WrittenAs f.types outer
  | .abstract h => TypeRef.WrittenAs h.types (outer ++ h.typeParams.map (·.sourceName))
  | .method h body =>
    TypeRef.WrittenAs (h.types ++ Expr.typesOfAll body)
      (outer ++ h.typeParams.map (·.sourceName))
  | .nested h members =>
    TypeRef.WrittenAs h.types (outer ++ h.typeParams.map (·.sourceName))
      ∧ AllClosed (outer ++ h.typeParams.map (·.sourceName)) members

def AllClosed (outer : List String) : List Member → Prop
  | [] => True
  | m :: ms => Closed outer m ∧ AllClosed outer ms

end

theorem allClosed_iff {outer : List String} {ms : List Member} :
    AllClosed outer ms ↔ ∀ m ∈ ms, m.Closed outer := by
  induction ms with
  | nil => exact ⟨fun _ m hm => absurd hm List.not_mem_nil, fun _ => trivial⟩
  | cons m ms ih => rw [AllClosed, List.forall_mem_cons, ih]

end Member

/-- **Every variable in the file is declared**, by its type or by the method around it. -/
def CompilationUnit.Closed (u : CompilationUnit) : Prop :=
  TypeRef.WrittenAs u.body.heading.types (u.body.heading.typeParams.map (·.sourceName))
    ∧ Member.AllClosed (u.body.heading.typeParams.map (·.sourceName)) u.body.members

namespace TypeRef

variable {ts : List TypeRef} {vs : List TypeVar} {names names' : List String}

theorem AllWithin.writtenAs (h : AllWithin ts vs) (hvs : ∀ v ∈ vs, v.sourceName ∈ names) :
    WrittenAs ts names := fun t ht v hv => hvs v (h t ht hv)

theorem WrittenAs.append {ts' : List TypeRef} (h : WrittenAs ts names)
    (h' : WrittenAs ts' names) : WrittenAs (ts ++ ts') names :=
  List.forall_mem_append.mpr ⟨h, h'⟩

theorem WrittenAs.cons {t : TypeRef} (ht : ∀ v ∈ t.vars, v.sourceName ∈ names)
    (h : WrittenAs ts names) : WrittenAs (t :: ts) names := List.forall_mem_cons.mpr ⟨ht, h⟩

theorem WrittenAs.nil : WrittenAs [] names := fun _ ht => absurd ht List.not_mem_nil

theorem WrittenAs.singleton {t : TypeRef} (ht : ∀ v ∈ t.vars, v.sourceName ∈ names) :
    WrittenAs [t] names := .cons ht .nil

/-- A declared type has the variables of its arguments. -/
theorem sourceName_mem_of_declared {name : DeclaredName} {args : List TypeRef}
    (h : WrittenAs args names) :
    ∀ v ∈ (declared name args .scalar).vars, v.sourceName ∈ names := by
  intro v hv
  rw [vars_declared, List.mem_flatMap] at hv
  obtain ⟨a, ha, hv⟩ := hv
  exact h a ha v hv

end TypeRef

/-! ## The methods of generated files -/

/-- Forwarding parameters mentions no type. -/
theorem MethodHeading.typesOfAll_forwarded (h : MethodHeading) :
    Expr.typesOfAll h.forwarded = [] := by
  unfold forwarded
  induction h.params with
  | nil => rfl
  | cons p ps ih =>
      rw [List.map_cons, Expr.typesOfAll, ih]
      rfl

namespace TraitMethod

theorem types_overrideHeading (m : TraitMethod) :
    m.overrideHeading.types = TypeRef.plain .override :: m.types := rfl

/-- What a call mentions is the type that it is made on. -/
theorem types_answerWith (m : TraitMethod) (receiver : Receiver) (name : String)
    (h : MethodHeading) :
    (m.answerWith (.call receiver name h.forwarded)).types = receiver.types := by
  have hcall : (Expr.call receiver name h.forwarded).types = receiver.types := by
    rw [Expr.types, h.typesOfAll_forwarded, List.append_nil]
  unfold answerWith
  split
  · exact hcall
  · exact hcall

end TraitMethod

theorem Expr.typesOfAll_singleton (e : Expr) : Expr.typesOfAll [e] = e.types :=
  List.append_nil _

/-! ## The files of a trait -/

namespace Trait

variable {t : Trait} {names : List String}

/-- In a file that declares the trait's parameters, the trait's type arguments are declared. -/
theorem Scoped.writtenAs_args (h : t.Scoped) (hnames : ∀ p ∈ t.typeParams, p.sourceName ∈ names) :
    TypeRef.WrittenAs t.type.args names :=
  h.args.writtenAs (List.forall_mem_map.mpr hnames)

theorem Scoped.sibling (h : t.Scoped) (hnames : ∀ p ∈ t.typeParams, p.sourceName ∈ names)
    (simple : String) : ∀ v ∈ (t.sibling simple).vars, v.sourceName ∈ names :=
  TypeRef.sourceName_mem_of_declared (h.writtenAs_args hnames)

/-- **The types of a method are declared by the file and the method together.** -/
theorem Scoped.method (h : t.Scoped) (hnames : ∀ p ∈ t.typeParams, p.sourceName ∈ names)
    {m : TraitMethod} (hm : m ∈ t.methods) :
    TypeRef.WrittenAs m.types (names ++ m.typeParams.map (·.sourceName)) := by
  refine (h.methods m hm).writtenAs (fun v hv => ?_)
  rcases List.mem_append.mp hv with hv | hv
  · obtain ⟨p, hp, rfl⟩ := List.mem_map.mp hv
    exact List.mem_append_left _ (hnames p hp)
  · obtain ⟨p, hp, rfl⟩ := List.mem_map.mp hv
    exact List.mem_append_right _ (List.mem_map.mpr ⟨p, hp, rfl⟩)

theorem Scoped.overriding (h : t.Scoped) (hnames : ∀ p ∈ t.typeParams, p.sourceName ∈ names)
    {m : TraitMethod} (hm : m ∈ t.methods) :
    TypeRef.WrittenAs m.overrideHeading.types (names ++ m.typeParams.map (·.sourceName)) := by
  rw [m.types_overrideHeading]
  exact .cons (fun v hv => absurd hv List.not_mem_nil) (h.method hnames hm)

theorem Scoped.closed_forwardingMember (h : t.Scoped)
    (hnames : ∀ p ∈ t.typeParams, p.sourceName ∈ names) {m : TraitMethod} (hm : m ∈ t.methods) :
    (forwardingMember m).Closed names := by
  refine (h.overriding hnames hm).append ?_
  rw [Expr.typesOfAll_singleton]
  exact (m.types_answerWith _ _ _).symm ▸ .nil

theorem Scoped.closed_aliasMember (h : t.Scoped)
    (hnames : ∀ p ∈ t.typeParams, p.sourceName ∈ names) {m : TraitMethod} (hm : m ∈ t.methods)
    (c : Config) : (aliasMember m c).Closed names := by
  refine (h.method hnames hm).append ?_
  rw [Expr.typesOfAll_singleton, m.types_answerWith]
  exact .nil

/-- The accessor casts to the type that it returns, which its heading mentions too. -/
theorem Scoped.closed_accessorMember (h : t.Scoped)
    (hnames : ∀ p ∈ t.typeParams, p.sourceName ∈ names) {m : TraitMethod} (hm : m ∈ t.methods)
    (target : TypeRef) : (accessorMember m target).Closed names := by
  refine (h.overriding hnames hm).append ?_
  rw [Expr.typesOfAll_singleton]
  split
  · exact .nil
  · refine .singleton (h.method hnames hm m.returns ?_)
    exact List.mem_append_left _ (List.mem_append_right _ List.mem_cons_self)

theorem Scoped.closed_delegateMembers (h : t.Scoped)
    (hnames : ∀ p ∈ t.typeParams, p.sourceName ∈ names) {m : TraitMethod} (hm : m ∈ t.methods)
    (c : Config) : ∀ member ∈ t.delegateMembers c m, member.Closed names := by
  have hforwarding : ∀ member ∈ (if m.isFinal then [] else [forwardingMember m]),
      member.Closed names := by
    intro member hmember
    split at hmember
    · exact absurd hmember List.not_mem_nil
    · rw [List.mem_singleton.mp hmember]
      exact h.closed_forwardingMember hnames hm
  unfold delegateMembers
  cases m.kind with
  | selfAccessor => exact List.forall_mem_singleton.mpr (h.closed_accessorMember hnames hm _)
  | abstract => exact hforwarding
  | concrete =>
      exact List.forall_mem_append.mpr
        ⟨hforwarding, List.forall_mem_singleton.mpr (h.closed_aliasMember hnames hm c)⟩

/-- **The interface of a trait is closed.** -/
theorem Scoped.closed_interfaceFile (h : t.Scoped) (c : Config) : (t.interfaceFile c).Closed := by
  have hnames : ∀ p ∈ t.typeParams, p.sourceName ∈ t.typeParams.map (·.sourceName) :=
    fun p hp => List.mem_map_of_mem hp
  refine ⟨?_, Member.allClosed_iff.mpr ?_⟩
  · refine (h.bounds.writtenAs (List.forall_mem_map.mpr hnames)).append ?_
    intro r hr
    obtain ⟨i, hi, rfl⟩ := List.mem_map.mp hr
    exact TypeRef.sourceName_mem_of_declared
      ((h.interfaces i hi).writtenAs (List.forall_mem_map.mpr hnames))
  · intro member hmember
    obtain ⟨m, hm, rfl⟩ := List.mem_map.mp hmember
    exact h.method hnames (List.mem_of_mem_filter (List.mem_of_mem_filter hm))

/-- **The delegate of a trait is closed.** -/
theorem Scoped.closed_delegateFile (h : t.Scoped) (c : Config) : (t.delegateFile c).Closed := by
  have hnames : ∀ p ∈ t.typeParams, p.sourceName ∈ t.typeParams.map (·.sourceName) :=
    fun p hp => List.mem_map_of_mem hp
  have htarget := h.sibling hnames (c.interfaceOf t.name.simple)
  refine ⟨?_, Member.allClosed_iff.mpr ?_⟩
  · refine (h.bounds.writtenAs (List.forall_mem_map.mpr hnames)).append ?_
    exact .singleton (TypeRef.sourceName_mem_of_declared (h.writtenAs_args hnames))
  · refine List.forall_mem_cons.mpr ⟨.singleton htarget, List.forall_mem_cons.mpr ⟨?_, ?_⟩⟩
    · -- the constructor takes the host and has no parameters of its own
      exact .singleton fun v hv => List.mem_append_left _ (htarget v hv)
    · intro member hmember
      obtain ⟨m, hm, hmember⟩ := List.mem_flatMap.mp hmember
      exact h.closed_delegateMembers hnames hm c member hmember

end Trait

/-! ## The superclass of a host -/

/-- The bounds of the class's parameters use those parameters, and explicit arguments use none. -/
structure SuperclassDecl.WellScoped (d : SuperclassDecl) : Prop where
  bounds : ∀ p ∈ d.typeParams, ∀ t ∈ p.bounds, t.varNames ⊆ d.typeParams.map (·.name)
  args : ∀ t, .explicit t ∈ d.args → t.varNames = []

def HostDecl.WellScoped (d : HostDecl) : Prop := ∀ s, d.superclass = some s → s.WellScoped

namespace Superclass

/-- What is left of the declaration in a superclass that a host extends. -/
structure Scoped (s : Superclass) : Prop where
  /-- There is an argument for every parameter. -/
  arity : s.params.length ≤ s.args.length
  bounds : ∀ p ∈ s.params, ∀ b ∈ p.upper, b.vars ⊆ (s.params.map (·.var.name)).map .plain
  args : ∀ t, .explicit t ∈ s.args → t.vars = []

/-- Every name that is made up for an argument is declared. -/
theorem sourceName_mem_typeParams {s : Superclass} {c : Config} {arg : SuperclassArgument}
    {position : Nat} (harg : (arg, position) ∈ s.args.zipIdx) {name : String}
    (hname : arg.paramName? c position = some name) :
    name ∈ (s.typeParams c).map (·.sourceName) := by
  refine Host.mem_sourceName_foldl_addParam.mpr (Or.inr ?_)
  refine List.mem_map.mpr ⟨⟨.plain name, s.boundsAt c position, none⟩, ?_, rfl⟩
  refine List.mem_filterMap.mpr ⟨(arg, position), harg, ?_⟩
  dsimp only
  rw [hname]
  rfl

/-- Every parameter is made up for an argument and named by it. -/
theorem exists_of_mem_typeParams {s : Superclass} {c : Config} {p : TypeParam}
    (hp : p ∈ s.typeParams c) :
    ∃ arg position name, (arg, position) ∈ s.args.zipIdx
      ∧ arg.paramName? c position = some name
      ∧ p = ⟨.plain name, s.boundsAt c position, none⟩ := by
  have hp := (Host.mem_of_mem_foldl_addParam hp).resolve_left List.not_mem_nil
  obtain ⟨⟨arg, position⟩, harg, hp⟩ := List.mem_filterMap.mp hp
  obtain ⟨name, hname, rfl⟩ := Option.map_eq_some_iff.mp hp
  exact ⟨arg, position, name, harg, hname, rfl⟩

/-- **The arguments of the superclass use the parameters made up for them.** -/
theorem Scoped.writtenAs_argRefs {s : Superclass} (h : s.Scoped) (c : Config) :
    TypeRef.WrittenAs (s.argRefs c) ((s.typeParams c).map (·.sourceName)) := by
  intro r hr v hv
  obtain ⟨⟨arg, position⟩, harg, rfl⟩ := List.mem_map.mp hr
  have hparam : ∀ name, v ∈ (TypeParam.plain name).toRef.vars → v = .plain name := by
    intro name hv
    rcases TypeRef.mem_vars_param.mp hv with ⟨rfl, -⟩ | ⟨t, ht, -⟩ | ⟨t, ht, -⟩
    · rfl
    · exact absurd ht List.not_mem_nil
    · cases ht
  cases arg with
  | explicit t =>
      have hv : v ∈ t.vars := hv
      rw [h.args t (List.fst_mem_of_mem_zipIdx harg)] at hv
      exact absurd hv List.not_mem_nil
  | named name =>
      rw [hparam name hv]
      exact sourceName_mem_typeParams harg rfl
  | auto =>
      rw [hparam _ hv]
      exact sourceName_mem_typeParams harg rfl

/-- **So do the bounds**, since every parameter of the class is replaced by an argument. -/
theorem Scoped.writtenAs_boundsAt {s : Superclass} (h : s.Scoped) (c : Config) (position : Nat) :
    TypeRef.WrittenAs (s.boundsAt c position) ((s.typeParams c).map (·.sourceName)) := by
  intro b hb v hv
  unfold boundsAt at hb
  split at hb
  · exact absurd hb List.not_mem_nil
  · next p hp =>
    obtain ⟨b₀, hb₀, rfl⟩ := List.mem_map.mp hb
    have hkeys : (s.substitution c).map Prod.fst = s.params.map (·.var.name) := by
      refine List.map_fst_zip ?_
      rw [List.length_map, argRefs, List.length_map, List.length_zipIdx]
      exact h.arity
    rcases @TypeRef.mem_vars_rewrite (fun w => (s.substitution c).lookup w.name) b₀ v hv with
      ⟨hv, hnone⟩ | ⟨w, r, hr, hv⟩
    · -- a parameter of the class does not stay
      obtain ⟨name, hname, rfl⟩ := List.mem_map.mp (h.bounds p (List.mem_of_getElem? hp) b₀ hb₀ hv)
      exact absurd (hkeys.symm ▸ hname) (lookup_eq_none_iff.mp hnone)
    · exact h.writtenAs_argRefs c r (List.of_mem_zip (mem_of_lookup_eq_some hr)).2 v hv

theorem Scoped.writtenAs_bounds {s : Superclass} (h : s.Scoped) (c : Config) :
    TypeRef.WrittenAs ((s.typeParams c).flatMap (·.bounds))
      ((s.typeParams c).map (·.sourceName)) := by
  intro b hb
  obtain ⟨p, hp, hb⟩ := List.mem_flatMap.mp hb
  obtain ⟨_, position, _, -, -, rfl⟩ := exists_of_mem_typeParams hp
  exact h.writtenAs_boundsAt c position b ((List.mem_append.mp hb).resolve_right List.not_mem_nil)

end Superclass

/-- Resolving keeps the names of parameters and the scope of their bounds. -/
theorem TypeParamDecl.upper_subset_of_resolve {ds : List TypeParamDecl} {ps : List TypeParam}
    (h : List.Forall₂ (fun d p => d.resolve = .ok p) ds ps)
    (hbounds : ∀ d ∈ ds, ∀ t ∈ d.bounds, t.varNames ⊆ ds.map (·.name)) :
    ∀ p ∈ ps, ∀ b ∈ p.upper, b.vars ⊆ (ps.map (·.var.name)).map .plain := by
  have hnames : ps.map (·.var.name) = ds.map (·.name) := by
    clear hbounds
    induction h with
    | nil => rfl
    | cons hp _ ih =>
        obtain ⟨-, _, -, rfl⟩ := resolve_eq_ok_iff.mp hp
        rw [List.map_cons, List.map_cons, ih]
        rfl
  intro p hp
  obtain ⟨d, hd, hres⟩ := exists_rel_of_mem h hp
  rw [hnames]
  exact vars_subset_of_resolve hres (hbounds d hd)

/-- **A resolved superclass is in scope if its declaration is.** -/
theorem SuperclassDecl.scoped_of_resolve {d : SuperclassDecl} {host : String} {s : Superclass}
    (hr : d.resolve host = .ok s) (hd : d.WellScoped) : s.Scoped := by
  have h := resolves_of_resolve hr
  refine ⟨?_, TypeParamDecl.upper_subset_of_resolve h.params hd.bounds, fun t ht => ?_⟩
  · rcases h.arity with he | he
    · rw [he]
      exact Nat.zero_le _
    · exact Nat.le_of_eq he.symm
  · rcases h.args with ⟨-, hauto⟩ | hargs
    · -- an argument is made up for every parameter
      rw [hauto] at ht
      obtain ⟨_, -, he⟩ := List.mem_map.mp ht
      cases he
    · obtain ⟨a, ha, hres⟩ := exists_rel_of_mem hargs ht
      cases a with
      | named name => cases hres
      | auto => cases hres
      | explicit t₀ =>
          obtain ⟨r, ht₀, he⟩ := bind_eq_ok.mp hres
          cases pure_eq_ok.mp he
          exact SourceType.vars_eq_nil_of_resolve ht₀ (hd.args t₀ ha)

namespace Host

variable {h : Host} {c : Config}

/-- The parameters of the class declare those of each trait. -/
theorem sourceName_mem_typeParams {t : Trait} (ht : t ∈ h.traits) :
    ∀ p ∈ t.typeParams, p.sourceName ∈ (h.typeParams c).map (·.sourceName) := fun _ hp =>
  mem_sourceName_foldl_addParam.mpr
    (Or.inr (List.mem_map_of_mem (List.mem_flatMap_of_mem ht hp)))

theorem sourceName_mem_typeParams_of_superclass {s : Superclass} (hs : h.superclass = some s)
    {name : String} (hname : name ∈ (s.typeParams c).map (·.sourceName)) :
    name ∈ (h.typeParams c).map (·.sourceName) := by
  refine mem_sourceName_foldl_addParam.mpr (Or.inl ?_)
  rw [hs]
  exact hname

/-- Every parameter comes from the superclass or from a trait. -/
theorem of_mem_typeParams {p : TypeParam} (hp : p ∈ h.typeParams c) :
    (∃ s, h.superclass = some s ∧ p ∈ s.typeParams c) ∨ ∃ t ∈ h.traits, p ∈ t.typeParams := by
  refine (mem_of_mem_foldl_addParam hp).imp (fun hp => ?_) List.mem_flatMap.mp
  cases hs : h.superclass with
  | none =>
      rw [hs] at hp
      exact absurd hp List.not_mem_nil
  | some s =>
      rw [hs] at hp
      exact ⟨s, rfl, hp⟩

theorem writtenAs_bounds (ht : ∀ t ∈ h.traits, t.Scoped)
    (hs : ∀ s, h.superclass = some s → s.Scoped) :
    TypeRef.WrittenAs ((h.typeParams c).flatMap (·.bounds))
      ((h.typeParams c).map (·.sourceName)) := by
  intro b hb v hv
  obtain ⟨p, hp, hb⟩ := List.mem_flatMap.mp hb
  rcases of_mem_typeParams hp with ⟨s, hsuper, hp⟩ | ⟨t, hmem, hp⟩
  · exact sourceName_mem_typeParams_of_superclass hsuper
      ((hs s hsuper).writtenAs_bounds c b (List.mem_flatMap_of_mem hp hb) v hv)
  · obtain ⟨p', hp', rfl⟩ := List.mem_map.mp
      ((ht t hmem).bounds b (List.mem_flatMap_of_mem hp hb) hv)
    exact sourceName_mem_typeParams hmem p' hp'

theorem closed_constantMembers (ht : ∀ t ∈ h.traits, t.Scoped) (names : List String) :
    ∀ member ∈ h.constantMembers, member.Closed names := by
  intro member hmember
  obtain ⟨k, hk, rfl⟩ := List.mem_map.mp hmember
  obtain ⟨⟨owner, position⟩, howner, hk⟩ := List.mem_flatMap.mp hk
  obtain ⟨constant, hconstant, rfl⟩ := List.mem_map.mp hk
  have hvars := (ht owner (List.fst_mem_of_mem_zipIdx howner)).constants constant hconstant
  refine .cons (fun v hv => ?_) (.singleton fun v hv => absurd hv List.not_mem_nil)
  dsimp only at hv
  rw [hvars] at hv
  exact absurd hv List.not_mem_nil

theorem closed_delegateMembers (ht : ∀ t ∈ h.traits, t.Scoped) :
    ∀ member ∈ h.delegateMembers c, member.Closed ((h.typeParams c).map (·.sourceName)) := by
  intro member hmember
  obtain ⟨⟨t, name⟩, hzip, rfl⟩ := List.mem_map.mp hmember
  have hmem := (List.of_mem_zip hzip).1
  have htype := (ht t hmem).sibling (sourceName_mem_typeParams (c := c) hmem)
    (c.delegateOf t.name.simple)
  exact .cons htype (.singleton htype)

theorem closed_dispatchMember (ht : ∀ t ∈ h.traits, t.Scoped) {g : MethodGroup}
    (hg : g ∈ h.groups) (fields : List String) :
    (dispatchMember c fields g).Closed ((h.typeParams c).map (·.sourceName)) := by
  obtain ⟨howner, hmethod, -⟩ := ((mem_entries_groups hg).mp g.winner_mem_entries).1
  have hmem := List.mem_of_getElem? howner
  have htypes := (ht _ hmem).method (sourceName_mem_typeParams (c := c) hmem)
    (List.mem_of_getElem? hmethod)
  unfold dispatchMember
  dsimp only
  split
  · exact htypes
  · refine htypes.append ?_
    rw [Expr.typesOfAll_singleton]
    exact (g.winner.method.types_answerWith _ _ _).symm ▸ .nil

/-- **The superclass of a host is closed.** -/
theorem closed_superclassFile (ht : ∀ t ∈ h.traits, t.Scoped)
    (hs : ∀ s, h.superclass = some s → s.Scoped) : (h.superclassFile c).Closed := by
  refine ⟨(writtenAs_bounds ht hs).append (TypeRef.WrittenAs.append ?_ ?_), ?_⟩
  · intro r hr
    obtain ⟨s, hsuper, rfl⟩ := Option.map_eq_some_iff.mp (Option.mem_toList.mp hr)
    have hargs := (hs s hsuper).writtenAs_argRefs c
    exact TypeRef.sourceName_mem_of_declared
      (fun a ha v hv => sourceName_mem_typeParams_of_superclass hsuper (hargs a ha v hv))
  · intro r hr
    obtain ⟨t, hmem, rfl⟩ := List.mem_map.mp hr
    exact (ht t hmem).sibling (sourceName_mem_typeParams hmem) _
  · refine Member.allClosed_iff.mpr ?_
    refine List.forall_mem_append.mpr ⟨List.forall_mem_append.mpr ⟨?_, ?_⟩, ?_⟩
    · exact closed_constantMembers ht _
    · exact closed_delegateMembers ht
    · exact List.forall_mem_map.mpr fun g hg => closed_dispatchMember ht hg _

end Host

/-! ## All files -/

/-- The trait is what a well-scoped declaration resolves to. -/
def Trait.OfWellScoped (t : Trait) : Prop :=
  ∃ (d : TraitDecl) (c : Config) (ds : List Diagnostic), d.WellScoped ∧ d.resolve c = .ok (t, ds)

theorem Trait.OfWellScoped.scoped {t : Trait} (h : t.OfWellScoped) : t.Scoped := by
  obtain ⟨d, c, ds, hd, hr⟩ := h
  exact (TraitDecl.resolves_of_resolve hr).scoped hd

namespace CompilationUnit

/--
**No generated file mentions an undeclared variable**, neither the files of a trait nor the
superclass of a host, if the declarations that they come from are well scoped.
-/
theorem closed_of_wellScoped {index : TraitIndex} (hindex : ∀ t ∈ index.traits, t.OfWellScoped)
    (c : Config) :
    (∀ t ∈ index.traits, (t.interfaceFile c).Closed ∧ (t.delegateFile c).Closed)
      ∧ ∀ (d : HostDecl) (h : Host), d.WellScoped → (d.resolve index).1 = .ok h →
          (h.superclassFile c).Closed := by
  refine ⟨fun t ht => ?_, fun d h hd hr => ?_⟩
  · have hscoped := (hindex t ht).scoped
    exact ⟨hscoped.closed_interfaceFile c, hscoped.closed_delegateFile c⟩
  · refine Host.closed_superclassFile (fun u hu => ?_) (fun s hs => ?_)
    · -- the host may have put the trait under another qualifier
      obtain ⟨t, ht, hreq⟩ := HostDecl.exists_requalified_of_resolve hr hu
      exact hreq.scoped (hindex t ht).scoped
    · obtain ⟨_, _, superclass, _, -, -, -, hsuper, -, rfl⟩ := HostDecl.resolve_eq_ok_iff.mp hr
      cases hdecl : d.superclass with
      | none =>
          rw [hdecl] at hsuper
          cases pure_eq_ok.mp hsuper
          cases hs
      | some s₀ =>
          rw [hdecl] at hsuper
          obtain ⟨s', hr', he⟩ := bind_eq_ok.mp hsuper
          cases pure_eq_ok.mp he
          cases hs
          exact SuperclassDecl.scoped_of_resolve hr' (hd s₀ hdecl)

end CompilationUnit

/-! ## A library -/

/-- A method of an interface, with a parameter that is bounded by the interface's. -/
def MethodDecl.mapping : MethodDecl :=
  let t : SourceType := .typeVariable "T" none none
  let r : SourceType := .typeVariable "R" none none
  { name := "map", modifiers := [.public, .abstract], typeParams := [⟨"R", [t]⟩], returns := r
    params := [⟨"f", .declared "lib.Function" [t, r]⟩], varargs := false, throws := []
    selfAccessor := false }

def MethodDecl.first : MethodDecl :=
  { name := "first", modifiers := [.public], typeParams := []
    returns := .typeVariable "E" none none, params := [], varargs := false, throws := []
    selfAccessor := false }

/-- A trait with a parameter that is bounded by itself, which it puts for the parameter of an
interface. -/
def TraitDecl.shelf (package : String) : TraitDecl :=
  let e : SourceType := .typeVariable "E" none none
  { name := s!"{package}.Shelf"
    typeParams := [⟨"E", [.declared "java.lang.Comparable" [e]]⟩]
    superclass := none
    interfaces := [⟨"lib.Source", ["T"], [e], [.mapping]⟩]
    members := [.method .first,
      .field ⟨"LABEL", .declared "java.lang.String" [], [.public, .static, .final]⟩] }

theorem TraitDecl.wellScoped_shelf (package : String) : (shelf package).WellScoped where
  bounds := by
    refine List.forall_mem_singleton.mpr (List.forall_mem_singleton.mpr ?_)
    show _ ⊆ ["E"]
    decide
  methods := by
    intro m hm
    rcases List.mem_cons.mp hm with he | hm
    · cases he
      show ∀ t ∈ MethodDecl.first.types, t.varNames ⊆ ["E"]
      decide
    · cases List.mem_singleton.mp hm
  constants := by
    intro f hf _ _ _
    rcases List.mem_cons.mp hf with he | hf
    · cases he
    · cases List.mem_singleton.mp hf
      rfl
  interfaces := by
    refine List.forall_mem_singleton.mpr ⟨List.forall_mem_singleton.mpr ?_, ?_⟩
    · show _ ⊆ ["E"]
      decide
    · refine List.forall_mem_singleton.mpr ?_
      show ∀ t ∈ MethodDecl.mapping.types, t.varNames ⊆ ["T", "R"]
      decide

/-- A class that composes two traits of one simple name and extends a generic class. -/
def HostDecl.library : HostDecl :=
  { name := "app.Library"
    traits := ["a.Shelf", "b.Shelf"]
    superclass := some
      { name := "app.Base"
        typeParams := [⟨"K", [.declared "java.lang.Comparable" [.typeVariable "V" none none]]⟩,
          ⟨"V", []⟩]
        args := [.named "Key", .auto] }
    preferences := [] }

/-- Both traits as a round knows them. -/
def TraitIndex.library : TraitIndex := .ofDecls [.shelf "a", .shelf "b"]

theorem CompilationUnit.closed_of_wellScoped_library :
    (∀ t ∈ TraitIndex.library.traits, t.OfWellScoped) ∧ HostDecl.library.WellScoped
      ∧ ∃ h, (HostDecl.library.resolve .library).1 = .ok h
        ∧ (h.typeParams .default).map (·.sourceName) = ["Key", "S1", "Shelf_E", "Shelf2_E"]
        ∧ (h.superclassFile .default).Closed := by
  have hindex : ∀ t ∈ TraitIndex.library.traits, t.OfWellScoped := by
    intro t ht
    obtain ⟨d, hd, ds, hr⟩ := Declarations.exists_resolve_of_mem_checkTraits ht
    refine ⟨d, .bare, ds, ?_, hr⟩
    rcases List.mem_cons.mp hd with rfl | hd
    · exact TraitDecl.wellScoped_shelf "a"
    · rw [List.mem_singleton.mp hd]
      exact TraitDecl.wellScoped_shelf "b"
  have hhost : HostDecl.library.WellScoped := by
    intro s hs
    cases hs
    refine ⟨by decide, fun t ht => ?_⟩
    rcases List.mem_cons.mp ht with he | ht
    · cases he
    · cases List.mem_singleton.mp ht
  have hresolve : ((HostDecl.library.resolve .library).1.toOption.map fun h =>
      (h.typeParams .default).map (·.sourceName)) = some ["Key", "S1", "Shelf_E", "Shelf2_E"] := by
    decide +kernel
  obtain ⟨h, hr, hnames⟩ := Option.map_eq_some_iff.mp hresolve
  have hr := toOption_eq_some_iff.mp hr
  exact ⟨hindex, hhost, h, hr, hnames, (closed_of_wellScoped hindex .default).2 _ h hhost hr⟩

end TraitWeaver
