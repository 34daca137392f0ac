import TraitWeaver.Proofs.SourceInduction
import TraitWeaver.Proofs.Writing

/-!
# Everything that is written has been gathered

A file is walked over twice: once to gather the types that it mentions, once to
write it. The two walks go over five kinds of source, each on its own, and they do
not even see the same things: a use of a variable is written without the bounds
that are gathered, the elements of a sized array are gathered and never written,
an interface keeps quiet about its superclass. What the file owes its reader is
one direction. A type that is written without having been gathered would be
spelled as if it clashed with nobody.

`Phrase.CoveredBy` is that direction for one phrase. It holds of each kind of
source as soon as it holds of its parts, from references up to whole types.
-/

namespace TraitWeaver

namespace Phrase

/-! ## The names in a phrase -/

@[simp]
theorem names_word (text : String) : names (word text) = [] := rfl

@[simp]
theorem names_append (p q : Phrase) : names (p ++ q) = names p ++ names q := List.filterMap_append

theorem names_separated (separator : String) (ps : List Phrase) :
    names (separated separator ps) = ps.flatMap names := by
  fun_induction separated separator ps with
  | case1 => rfl
  | case2 p => exact (List.append_nil _).symm
  | case3 p ps hne ih => rw [names_append, names_append, ih, names_word, List.append_nil,
      List.flatMap_cons]

/-- Every type in the phrase that a file may have to import is among some that it knows. -/
def CoveredBy (p : Phrase) (types : List DeclaredName) : Prop :=
  ∀ n ∈ p.names, n.isImportable = true → n ∈ types

namespace CoveredBy

variable {types types' : List DeclaredName} {p q : Phrase}

theorem mono (h : p.CoveredBy types) (hsub : ∀ n ∈ types, n ∈ types') : p.CoveredBy types' :=
  fun n hn hi => hsub n (h n hn hi)

theorem left (h : p.CoveredBy types) : p.CoveredBy (types ++ types') :=
  h.mono fun _ => List.mem_append_left _

theorem right (h : p.CoveredBy types') : p.CoveredBy (types ++ types') :=
  h.mono fun _ => List.mem_append_right _

theorem nil : CoveredBy [] types := fun _ hn => absurd hn List.not_mem_nil

theorem word (text : String) : (Phrase.word text).CoveredBy types :=
  fun _ hn => absurd hn List.not_mem_nil

theorem append (hp : p.CoveredBy types) (hq : q.CoveredBy types) : (p ++ q).CoveredBy types := by
  intro n hn
  rw [names_append] at hn
  rcases List.mem_append.mp hn with hn | hn
  · exact hp n hn
  · exact hq n hn

theorem separated {ps : List Phrase} (h : ∀ p ∈ ps, p.CoveredBy types) (separator : String) :
    (Phrase.separated separator ps).CoveredBy types := by
  intro n hn
  rw [names_separated] at hn
  obtain ⟨p, hp, hn⟩ := List.mem_flatMap.mp hn
  exact h p hp n hn

theorem listed {ps : List Phrase} (h : ∀ p ∈ ps, p.CoveredBy types) (opening separator : String) :
    (Phrase.listed opening separator ps).CoveredBy types := by
  unfold Phrase.listed
  split
  · exact nil
  · exact (word opening).append (separated h separator)

/-- Parts that are covered each by what it mentions itself are covered by all of that. -/
theorem map {α : Type} {as : List α} {phrase : α → Phrase} {mentions : α → List DeclaredName}
    (h : ∀ a ∈ as, (phrase a).CoveredBy (mentions a)) :
    ∀ p ∈ as.map phrase, p.CoveredBy (as.flatMap mentions) := by
  intro p hp
  obtain ⟨a, ha, rfl⟩ := List.mem_map.mp hp
  exact (h a ha).mono fun n hn => List.mem_flatMap.mpr ⟨a, ha, hn⟩

end CoveredBy

end Phrase

/-! ## References -/

namespace TypeRef

theorem mentions_declared (name : DeclaredName) (args : List TypeRef) (dims : Dims) :
    (TypeRef.declared name args dims).mentions =
      (if name.isImportable then [name] else []) ++ args.flatMap mentions := by
  unfold mentions declaredNames
  rw [nodes, nodesOfList_eq_flatMap]
  show (name :: (args.flatMap nodes).filterMap declaredName?).filter _ = _
  rw [List.filterMap_flatMap, List.filter_cons, List.filter_flatMap]
  split
  · rfl
  · rfl

theorem mentions_param (var : TypeVar) (upper : List TypeRef) (lower : Option TypeRef)
    (dims : Dims) :
    (TypeRef.param var upper lower dims).mentions =
      upper.flatMap mentions ++ lower.toList.flatMap mentions := by
  unfold mentions declaredNames
  rw [nodes, nodesOfList_eq_flatMap]
  show ((upper.flatMap nodes ++ nodesOfOption lower).filterMap declaredName?).filter _ = _
  rw [List.filterMap_append, List.filterMap_flatMap, List.filter_append, List.filter_flatMap]
  cases lower with
  | none => rfl
  | some t => rw [nodesOfOption, Option.toList_some, List.flatMap_singleton]

theorem argumentPhrase_coveredBy {ps : List Phrase} {types : List DeclaredName}
    (h : ∀ p ∈ ps, p.CoveredBy types) : (argumentPhrase ps).CoveredBy types := by
  unfold argumentPhrase
  split
  · exact Phrase.CoveredBy.nil
  · exact ((Phrase.CoveredBy.word _).append (Phrase.CoveredBy.separated h _)).append
      (Phrase.CoveredBy.word _)

/-- The type at the root of a reference is mentioned by it. -/
theorem name_coveredBy_mentions {t : TypeRef} {name : DeclaredName}
    (h : t.declaredName? = some name) : Phrase.CoveredBy [.name name] t.mentions := by
  intro n hn hi
  obtain rfl := List.mem_singleton.mp hn
  cases t with
  | declared name args dims =>
      obtain rfl := Option.some.inj h
      have hi : name.isImportable = true := hi
      rw [mentions_declared, if_pos hi]
      exact List.mem_append_left _ (List.mem_singleton.mpr rfl)
  | param var upper lower dims => cases h

/-- **The types that a reference is written with are among those that it mentions.** The converse
fails: most variables stand without their bounds. -/
theorem coveredBy_mentions (t : TypeRef) : t.phrase.CoveredBy t.mentions := by
  induction t with
  | declared name args dims ih =>
      have hname : Phrase.CoveredBy [.name name] (TypeRef.declared name args dims).mentions :=
        name_coveredBy_mentions rfl
      rw [phrase, phrases_eq_map]
      rw [mentions_declared] at hname ⊢
      exact (hname.append (argumentPhrase_coveredBy fun p hp =>
        (Phrase.CoveredBy.map ih p hp).right)).append (Phrase.CoveredBy.word _)
  | param var upper lower dims ihUpper ihLower =>
      rw [phrase, mentions_param]
      refine Phrase.CoveredBy.append ?_ (Phrase.CoveredBy.word _)
      split
      · refine (Phrase.CoveredBy.word _).append ?_
        -- of the bounds of a wildcard at most one is written
        cases upper with
        | cons t rest =>
            rw [phrases, wildcardBound, List.flatMap_cons]
            exact (Phrase.CoveredBy.word _).append (ihUpper t List.mem_cons_self).left.left
        | nil =>
            cases lower with
            | none => exact Phrase.CoveredBy.nil
            | some t =>
                rw [phrases, lowerPhrase, wildcardBound, Option.toList_some,
                  List.flatMap_singleton]
                exact (Phrase.CoveredBy.word _).append (ihLower t rfl).right
      · exact Phrase.CoveredBy.word _

end TypeRef

namespace TypeParam

theorem coveredBy_mentions (p : TypeParam) : p.declarationPhrase.CoveredBy p.mentions := by
  unfold declarationPhrase
  refine (Phrase.CoveredBy.word _).append (Phrase.CoveredBy.listed ?_ _ _)
  intro q hq
  obtain ⟨t, ht, rfl⟩ := List.mem_map.mp hq
  exact t.coveredBy_mentions.mono fun n hn =>
    List.mem_flatMap.mpr ⟨t, (List.mem_filter.mp ht).1, hn⟩

theorem listPhrase_coveredBy (params : List TypeParam) :
    (listPhrase params).CoveredBy (params.flatMap (·.mentions)) := by
  unfold listPhrase
  split
  · exact Phrase.CoveredBy.nil
  · have h : ∀ q ∈ params.map (·.declarationPhrase), q.CoveredBy (params.flatMap (·.mentions)) :=
      Phrase.CoveredBy.map fun p _ => p.coveredBy_mentions
    exact ((Phrase.CoveredBy.word _).append (Phrase.CoveredBy.separated h _)).append
      (Phrase.CoveredBy.word _)

end TypeParam

/-! ## Expressions -/

namespace Expr

theorem argumentPhrase_coveredBy {ps : List Phrase} {types : List DeclaredName}
    (h : ∀ p ∈ ps, p.CoveredBy types) : (argumentPhrase ps).CoveredBy types :=
  ((Phrase.CoveredBy.word _).append (Phrase.CoveredBy.separated h _)).append
    (Phrase.CoveredBy.word _)

theorem diamondPhrase_coveredBy (type : TypeRef) (diamond : Bool) :
    (diamondPhrase type diamond).CoveredBy type.mentions := by
  unfold diamondPhrase
  split
  · rename_i hname
    exact (TypeRef.name_coveredBy_mentions hname).append (Phrase.CoveredBy.word _)
  · exact type.coveredBy_mentions

theorem staticPhrase_coveredBy (type : TypeRef) :
    (staticPhrase type).CoveredBy type.mentions := by
  unfold staticPhrase
  split
  · rename_i hname
    exact TypeRef.name_coveredBy_mentions hname
  · exact type.coveredBy_mentions

theorem arrayPhrase_coveredBy {sizes items : List Phrase} {types : List DeclaredName}
    (hsizes : ∀ p ∈ sizes, p.CoveredBy types) (hitems : ∀ p ∈ items, p.CoveredBy types) :
    (arrayPhrase sizes items).CoveredBy types := by
  unfold arrayPhrase
  split
  · split
    · exact Phrase.CoveredBy.word _
    · exact ((Phrase.CoveredBy.word _).append (Phrase.CoveredBy.separated hitems _)).append
        (Phrase.CoveredBy.word _)
  · intro n hn
    unfold Phrase.names at hn
    rw [List.filterMap_flatMap] at hn
    obtain ⟨size, hsize, hn⟩ := List.mem_flatMap.mp hn
    exact (((Phrase.CoveredBy.word _).append (hsizes size hsize)).append
      (Phrase.CoveredBy.word _)) n hn

/-- A receiver is covered if the expression in it is. -/
theorem receiver_coveredBy {receiver : Receiver}
    (h : ∀ e, receiver = .expr e → e.phrase.CoveredBy e.mentions) :
    receiver.phrase.CoveredBy receiver.mentions := by
  cases receiver with
  | none => exact Phrase.CoveredBy.nil
  | this => exact Phrase.CoveredBy.word _
  | super => exact Phrase.CoveredBy.word _
  | static type =>
      rw [Receiver.phrase]
      exact (staticPhrase_coveredBy type).append (Phrase.CoveredBy.word _)
  | expr e =>
      rw [Receiver.phrase, Receiver.mentions]
      have he := h e rfl
      split
      · exact ((Phrase.CoveredBy.word _).append he).append (Phrase.CoveredBy.word _)
      · split
        · exact he.append (Phrase.CoveredBy.word _)
        · exact he

theorem phrases_coveredBy {es : List Expr}
    (h : ∀ e ∈ es, e.phrase.CoveredBy e.mentions) :
    ∀ p ∈ phrases es, p.CoveredBy (mentionsOfAll es) := by
  rw [phrases_eq_map, mentionsOfAll_eq_flatMap]
  exact Phrase.CoveredBy.map h

/-- **The types that an expression is written with are among those that it mentions.** -/
theorem coveredBy_mentions (e : Expr) : e.phrase.CoveredBy e.mentions := by
  induction e with
  | literal text => exact Phrase.CoveredBy.word _
  | this => exact Phrase.CoveredBy.word _
  | reference receiver name ih =>
      rw [phrase, mentions]
      exact (receiver_coveredBy ih).append (Phrase.CoveredBy.word _)
  | assign target value ihTarget ihValue =>
      rw [phrase, mentions]
      exact (ihTarget.left.append (Phrase.CoveredBy.word _)).append ihValue.right
  | cast type operand ih =>
      rw [phrase, mentions]
      exact (((Phrase.CoveredBy.word _).append type.coveredBy_mentions.left).append
        (Phrase.CoveredBy.word _)).append ih.right
  | construct type args diamond ih =>
      rw [phrase, mentions]
      exact ((Phrase.CoveredBy.word _).append (diamondPhrase_coveredBy type diamond).left).append
        (argumentPhrase_coveredBy (phrases_coveredBy ih)).right
  | call receiver name args ihReceiver ihArgs =>
      rw [phrase, mentions]
      exact ((receiver_coveredBy ihReceiver).left.append (Phrase.CoveredBy.word _)).append
        (argumentPhrase_coveredBy (phrases_coveredBy ihArgs)).right
  | newArray type sizes items ihSizes ihItems =>
      rw [phrase, mentions]
      refine ((Phrase.CoveredBy.word _).append type.coveredBy_mentions.left.left).append ?_
      exact arrayPhrase_coveredBy (fun p hp => (phrases_coveredBy ihSizes p hp).right.left)
        (fun p hp => (phrases_coveredBy ihItems p hp).right)
  | element array index ihArray ihIndex =>
      rw [phrase, mentions]
      exact ((ihArray.left.append (Phrase.CoveredBy.word _)).append ihIndex.right).append
        (Phrase.CoveredBy.word _)
  | result value ih =>
      rw [phrase, mentions]
      refine (Phrase.CoveredBy.word _).append ?_
      cases value with
      | none => exact Phrase.CoveredBy.nil
      | some e => exact (Phrase.CoveredBy.word _).append (ih e rfl)

end Expr

/-! ## Headings -/

/-- A list of references after a word. -/
theorem listed_coveredBy (opening separator : String) (ts : List TypeRef) :
    (Phrase.listed opening separator (ts.map (·.phrase))).CoveredBy (ts.flatMap (·.mentions)) :=
  Phrase.CoveredBy.listed (Phrase.CoveredBy.map fun t _ => t.coveredBy_mentions) _ _

theorem keyword_coveredBy (keywords : List Keyword) (types : List DeclaredName) :
    (Keyword.phrase keywords).CoveredBy types := by
  intro n hn
  unfold Phrase.names Keyword.phrase at hn
  rw [List.filterMap_map] at hn
  obtain ⟨k, -, hk⟩ := List.mem_filterMap.mp hn
  cases hk

theorem TypeHeading.coveredBy_mentions (h : TypeHeading) : h.phrase.CoveredBy h.mentions := by
  have hopening : ∀ word, (Keyword.phrase h.keywords ++ Phrase.word word ++ Phrase.word h.name ++
      TypeParam.listPhrase h.typeParams).CoveredBy h.mentions :=
    fun word => (((keyword_coveredBy h.keywords h.mentions).append
      (Phrase.CoveredBy.word word)).append (Phrase.CoveredBy.word h.name)).append
      (TypeParam.listPhrase_coveredBy h.typeParams).left
  have hinterfaces : ∀ word, (Phrase.listed word ", " (h.interfaces.map (·.phrase))).CoveredBy
      h.mentions := by
    intro word
    unfold mentions
    rw [List.flatMap_append]
    exact (listed_coveredBy word ", " h.interfaces).right.right
  have hsuper : ((h.superclass.map fun t => Phrase.word " extends " ++ t.phrase).getD []).CoveredBy
      h.mentions := by
    unfold mentions
    cases h.superclass with
    | none => exact Phrase.CoveredBy.nil
    | some t => exact (Phrase.CoveredBy.word _).append t.coveredBy_mentions.left.right
  unfold phrase
  cases h.kind with
  | classType => exact (hopening "class ").append (hsuper.append (hinterfaces " implements "))
  | interfaceType => exact (hopening "interface ").append (hinterfaces " extends ")

theorem Field.coveredBy_mentions (f : Field) : f.phrase.CoveredBy f.mentions := by
  unfold phrase mentions
  refine (((keyword_coveredBy _ _).append f.type.coveredBy_mentions.left).append
    (Phrase.CoveredBy.word _)).append ?_
  cases f.value with
  | none => exact Phrase.CoveredBy.nil
  | some e => exact (Phrase.CoveredBy.word _).append e.coveredBy_mentions.right

namespace MethodHeading

theorem annotationPhrases_coveredBy (h : MethodHeading) :
    ∀ p ∈ h.annotationPhrases, p.CoveredBy h.mentions := by
  intro p hp
  obtain ⟨a, ha, rfl⟩ := List.mem_map.mp hp
  have hname : Phrase.CoveredBy [.name a.name] a.mentions :=
    TypeRef.name_coveredBy_mentions (t := a.toRef) rfl
  refine (Phrase.CoveredBy.word _).append (hname.mono fun n hn => ?_)
  exact List.mem_append_left _ (List.mem_append_left _ (List.mem_flatMap.mpr ⟨a, ha, hn⟩))

theorem coveredBy_mentions (h : MethodHeading) : h.phrase.CoveredBy h.mentions := by
  unfold phrase mentions
  rw [List.flatMap_append, List.flatMap_append]
  refine (((((keyword_coveredBy _ _).append ?_).append ?_).append (Phrase.CoveredBy.word _)).append
    ?_).append ?_
  · -- the parameters of a generic method
    split
    · exact Phrase.CoveredBy.nil
    · exact (TypeParam.listPhrase_coveredBy h.typeParams).right.left.append
        (Phrase.CoveredBy.word _)
  · -- what it returns
    cases h.returns with
    | none => exact Phrase.CoveredBy.nil
    | some t =>
        exact t.coveredBy_mentions.left.left.left.right.append (Phrase.CoveredBy.word _)
  · -- what it takes
    refine Expr.argumentPhrase_coveredBy (fun q hq => ?_)
    obtain ⟨param, hparam, rfl⟩ := List.mem_map.mp hq
    refine (param.type.coveredBy_mentions.mono fun n hn => ?_).append (Phrase.CoveredBy.word _)
    have htypes : n ∈ (h.params.map (·.type)).flatMap (·.mentions) :=
      List.mem_flatMap.mpr ⟨param.type, List.mem_map_of_mem hparam, hn⟩
    exact List.mem_append_right _ (List.mem_append_left _ (List.mem_append_right _ htypes))
  · -- what it throws
    exact (listed_coveredBy " throws " ", " h.throws).right.right

end MethodHeading

/-! ## Files -/

namespace Writer.Op

/-- The operation belongs to the body of a file that knows the types it is written with. -/
structure Knows (op : Op) (types : List DeclaredName) : Prop where
  keepsNames : op.keepsNames = true
  coveredBy : ∀ p ∈ op.phrases, p.CoveredBy types

variable {types types' : List DeclaredName}

theorem Knows.mono {op : Op} (h : op.Knows types) (hsub : ∀ n ∈ types, n ∈ types') :
    op.Knows types' :=
  ⟨h.keepsNames, fun p hp => (h.coveredBy p hp).mono hsub⟩

/-- A line of its own with what closes it. -/
theorem line_coveredBy {p : Phrase} (h : p.CoveredBy types) (terminator : String) :
    ∀ q ∈ [p ++ Phrase.word terminator], q.CoveredBy types := by
  intro q hq
  rw [List.mem_singleton.mp hq]
  exact h.append (Phrase.CoveredBy.word _)

theorem method_coveredBy (h : MethodHeading) (terminator : String) :
    ∀ q ∈ h.annotationPhrases ++ [h.phrase ++ Phrase.word terminator], q.CoveredBy h.mentions := by
  intro q hq
  rcases List.mem_append.mp hq with hq | hq
  · exact h.annotationPhrases_coveredBy q hq
  · exact line_coveredBy h.coveredBy_mentions terminator q hq

theorem closing_coveredBy : ∀ q ∈ [Phrase.word "\x7d"], q.CoveredBy types := by
  intro q hq
  rw [List.mem_singleton.mp hq]
  exact Phrase.CoveredBy.word _

end Writer.Op

/-- **Whatever is written of a member is mentioned by it.** -/
theorem Member.ops_know (m : Member) : ∀ op ∈ m.ops, op.Knows m.mentions := by
  induction m with
  | field f =>
      intro op hop
      rw [List.mem_singleton.mp hop]
      exact ⟨rfl, Writer.Op.line_coveredBy f.coveredBy_mentions _⟩
  | abstract h =>
      intro op hop
      rw [List.mem_singleton.mp hop]
      exact ⟨rfl, Writer.Op.method_coveredBy h _⟩
  | method h body =>
      have hopen : (if h.isConstructor then Writer.Op.openConstructor h
          else Writer.Op.openMethod h).Knows h.mentions := by
        split
        · exact ⟨rfl, Writer.Op.method_coveredBy h _⟩
        · exact ⟨rfl, Writer.Op.method_coveredBy h _⟩
      intro op hop
      rw [ops, List.cons_append] at hop
      rw [mentions, Expr.mentionsOfAll_eq_flatMap]
      rcases List.mem_cons.mp hop with rfl | hop
      · exact hopen.mono fun _ => List.mem_append_left _
      · rcases List.mem_append.mp hop with hop | hop
        · obtain ⟨e, he, rfl⟩ := List.mem_map.mp hop
          refine ⟨rfl, Writer.Op.line_coveredBy (e.coveredBy_mentions.mono fun n hn => ?_) _⟩
          exact List.mem_append_right _ (List.mem_flatMap.mpr ⟨e, he, hn⟩)
        · rw [List.mem_singleton.mp hop]
          exact ⟨rfl, Writer.Op.closing_coveredBy⟩
  | nested h members ih =>
      intro op hop
      rw [ops, opsOfAll_eq_flatMap, List.cons_append] at hop
      rw [mentions, mentionsOfAll_eq_flatMap]
      rcases List.mem_cons.mp hop with rfl | hop
      · exact ⟨rfl, Writer.Op.line_coveredBy h.coveredBy_mentions.left _⟩
      · rcases List.mem_append.mp hop with hop | hop
        · obtain ⟨m, hm, hop⟩ := List.mem_flatMap.mp hop
          exact (ih m hm op hop).mono fun n hn =>
            List.mem_append_right _ (List.mem_flatMap.mpr ⟨m, hm, hn⟩)
        · rw [List.mem_singleton.mp hop]
          exact ⟨rfl, Writer.Op.closing_coveredBy⟩

namespace CompilationUnit

theorem ops_know (u : CompilationUnit) : ∀ op ∈ u.body.ops, op.Knows u.mentions := by
  -- the type of a file is written as a type in it would be
  have h := (Member.nested u.body.heading u.body.members).ops_know
  exact fun op hop => (h op hop).mono fun n hn => DeclaredName.mem_sortedSet.mpr hn

/-- The types whose names are written in the body of the file. -/
def written (u : CompilationUnit) : List DeclaredName :=
  (u.body.ops.flatMap (·.phrases)).flatMap (·.names)

theorem mem_mentions_of_mem_written {u : CompilationUnit} {n : DeclaredName} (hn : n ∈ u.written)
    (hi : n.isImportable = true) : n ∈ u.mentions := by
  obtain ⟨p, hp, hn⟩ := List.mem_flatMap.mp hn
  obtain ⟨op, hop, hp⟩ := List.mem_flatMap.mp hp
  exact (u.ops_know op hop).coveredBy p hp n hn hi

/--
**Everything that is written has been gathered.**

The body of a file, as far as the writer gets with it, is written as the phrases of
its operations, spelled with the names of the file; and each type whose name is in
one of these phrases is mentioned by the file, or is the root of the hierarchy, a
primitive or `void`.
-/
theorem written_gathered (u : CompilationUnit) :
    (∀ n ∈ u.written, n ∈ u.mentions ∨ n = .root ∨ n.isPrimitive = true)
      ∧ ∀ ops, ops <+: u.body.ops → ∀ w w' : Writer, w.applyAll ops = .ok w' →
        w'.code = w.code ++ (ops.flatMap (·.phrases)).map w.names.spell := by
  refine ⟨?_, ?_⟩
  · intro n hn
    by_cases hi : n.isImportable = true
    · exact Or.inl (mem_mentions_of_mem_written hn hi)
    · exact Or.inr (DeclaredName.eq_root_or_isPrimitive hi)
  · intro ops hops w w' hw
    have hkeep : ∀ op ∈ ops, op.keepsNames = true :=
      fun op hop => (u.ops_know op (hops.subset hop)).keepsNames
    exact (Writer.applyAll_adds hkeep hw).code

end CompilationUnit

end TraitWeaver
