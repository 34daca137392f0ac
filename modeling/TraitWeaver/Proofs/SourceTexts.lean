import TraitWeaver.Proofs.Braces
import TraitWeaver.Proofs.SourceInduction

/-!
# The texts in source

Everything that is planned for a file has its texts from outside: names of types,
variables, members and parameters, literals, comments. The words and signs between
them are the language's, and among them the only braces that do not open or close a
body are those of an array with items.

So if all texts from outside are plain, every phrase is flat, and a line of a file
opens a body, closes one, or does nothing to the braces.
-/

namespace TraitWeaver

/-! ## Which texts there are -/

def DeclaredName.given (n : DeclaredName) : List String := [n.package, n.simple]

def TypeVar.given (v : TypeVar) : List String := v.name :: v.qualifier.toList

namespace TypeRef

/-- The texts in the root of a reference. -/
def rootGiven : TypeRef → List String
  | .declared name _ _ => name.given
  | .param var _ _ _ => var.given

/-- All texts in a reference. -/
def given (t : TypeRef) : List String := t.nodes.flatMap rootGiven

end TypeRef

def TypeParam.given (p : TypeParam) : List String :=
  p.var.given ++ p.upper.flatMap (·.given) ++ p.lower.toList.flatMap (·.given)

mutual

/-- All texts in an expression. -/
def Expr.given : Expr → List String
  | .literal text => [text]
  | .this => []
  | .reference receiver name => receiver.given ++ [name]
  | .assign target value => target.given ++ value.given
  | .cast type operand => type.given ++ operand.given
  | .construct type args _ => type.given ++ Expr.givenOfAll args
  | .call receiver name args => receiver.given ++ [name] ++ Expr.givenOfAll args
  | .newArray element sizes items =>
    element.given ++ Expr.givenOfAll sizes ++ Expr.givenOfAll items
  | .element array index => array.given ++ index.given
  | .result value => Expr.givenOfOption value

def Expr.givenOfAll : List Expr → List String
  | [] => []
  | e :: es => e.given ++ Expr.givenOfAll es

def Expr.givenOfOption : Option Expr → List String
  | none => []
  | some e => e.given

def Receiver.given : Receiver → List String
  | .none | .this | .super => []
  | .static type => type.given
  | .expr e => e.given

end

def Field.given (f : Field) : List String :=
  f.type.given ++ [f.name] ++ Expr.givenOfOption f.value

def TypeHeading.given (h : TypeHeading) : List String :=
  [h.name] ++ h.typeParams.flatMap (·.given) ++
    (h.superclass.toList ++ h.interfaces).flatMap (·.given)

def MethodHeading.given (h : MethodHeading) : List String :=
  [h.name] ++ h.annotations.flatMap (fun a => a.name.given ++ a.args.flatMap (·.given)) ++
    h.typeParams.flatMap (·.given) ++ h.params.map (·.name) ++
    (h.returns.toList ++ h.params.map (·.type) ++ h.throws).flatMap (·.given)

/-- All texts in an operation. -/
def Writer.Op.given : Op → List String
  | .package name => [name]
  | .imports types => types.flatMap (·.given)
  | .openType h => h.given
  | .field f => f.given
  | .declareMethod h | .openMethod h | .openConstructor h => h.given
  | .statement e => e.given
  | .comment text => [text]
  | .closeType | .closeMethod | .blankLine => []

/-- All of some texts are plain. -/
def Plain (texts : List String) : Prop := ∀ s ∈ texts, IsPlain s

instance (texts : List String) : Decidable (Plain texts) :=
  List.decidableBAll IsPlain texts

namespace Plain

variable {texts texts' : List String} {s : String}

@[simp]
theorem append_iff : Plain (texts ++ texts') ↔ Plain texts ∧ Plain texts' :=
  List.forall_mem_append

@[simp]
theorem cons_iff : Plain (s :: texts) ↔ IsPlain s ∧ Plain texts := List.forall_mem_cons

@[simp]
theorem flatMap_iff {α : Type} {as : List α} {f : α → List String} :
    Plain (as.flatMap f) ↔ ∀ a ∈ as, Plain (f a) := List.forall_mem_flatMap

end Plain

/-! ## References -/

theorem TypeVar.plain_sourceName {v : TypeVar} (h : Plain v.given) : IsPlain v.sourceName := by
  obtain ⟨hname, hqualifier⟩ := Plain.cons_iff.mp h
  unfold sourceName
  cases hq : v.qualifier with
  | none => exact hname
  | some q =>
      rw [hq, Option.toList_some] at hqualifier
      exact ((hqualifier q List.mem_cons_self).append (by decide : IsPlain "_")).append hname

theorem Dims.plain_text (d : Dims) : IsPlain d.text := by
  have hbrackets : ∀ n, IsPlain (String.join (List.replicate n "[]")) := by
    intro n
    induction n with
    | zero => decide
    | succ n ih =>
        rw [List.replicate_succ, String.join_cons]
        exact (by decide : IsPlain "[]").append ih
  unfold text
  split
  · exact (hbrackets _).append (by decide)
  · exact hbrackets _

theorem DeclaredName.isFlat {n : DeclaredName} (h : Plain n.given) : Phrase.IsFlat [.name n] := by
  obtain ⟨hpackage, hsimple⟩ := Plain.cons_iff.mp h
  exact .name hpackage (hsimple _ List.mem_cons_self)

namespace TypeRef

theorem given_declared (name : DeclaredName) (args : List TypeRef) (dims : Dims) :
    (TypeRef.declared name args dims).given = name.given ++ args.flatMap given := by
  unfold given
  rw [nodes, nodesOfList_eq_flatMap, List.flatMap_cons, List.flatMap_assoc]
  rfl

theorem given_param (var : TypeVar) (upper : List TypeRef) (lower : Option TypeRef) (dims : Dims) :
    (TypeRef.param var upper lower dims).given =
      var.given ++ (upper.flatMap given ++ lower.toList.flatMap given) := by
  unfold given
  rw [nodes, nodesOfList_eq_flatMap, List.flatMap_cons, List.flatMap_append, List.flatMap_assoc]
  cases lower with
  | none => rfl
  | some t => rw [nodesOfOption, Option.toList_some, List.flatMap_singleton]; rfl

theorem isFlat_argumentPhrase {ps : List Phrase} (h : ∀ p ∈ ps, p.IsFlat) :
    (argumentPhrase ps).IsFlat := by
  unfold argumentPhrase
  split
  · exact .nil
  · exact ((Phrase.IsFlat.word (by decide)).append (.separated h (by decide))).append
      (.word (by decide))

/-- **A reference whose texts are plain is written flat.** -/
theorem isFlat {t : TypeRef} (h : Plain t.given) : t.phrase.IsFlat := by
  induction t with
  | declared name args dims ih =>
      rw [given_declared, Plain.append_iff, Plain.flatMap_iff] at h
      rw [phrase, phrases_eq_map]
      refine ((DeclaredName.isFlat h.1).append (isFlat_argumentPhrase ?_)).append
        (.word dims.plain_text.flat)
      exact List.forall_mem_map.mpr fun t ht => ih t ht (h.2 t ht)
  | param var upper lower dims ihUpper ihLower =>
      rw [given_param, Plain.append_iff, Plain.append_iff, Plain.flatMap_iff] at h
      obtain ⟨hvar, hupper, hlower⟩ := h
      rw [phrase]
      refine Phrase.IsFlat.append ?_ (.word dims.plain_text.flat)
      split
      · refine (Phrase.IsFlat.word (by decide)).append ?_
        cases upper with
        | cons t rest =>
            rw [phrases, wildcardBound]
            exact (Phrase.IsFlat.word (by decide)).append
              (ihUpper t List.mem_cons_self (hupper t List.mem_cons_self))
        | nil =>
            cases lower with
            | none => exact .nil
            | some t =>
                rw [Option.toList_some, List.flatMap_singleton] at hlower
                rw [phrases, lowerPhrase, wildcardBound]
                exact (Phrase.IsFlat.word (by decide)).append (ihLower t rfl hlower)
      · exact .word (TypeVar.plain_sourceName hvar).flat

theorem isFlat_phrases {ts : List TypeRef} (h : ∀ t ∈ ts, Plain t.given) :
    ∀ p ∈ ts.map (·.phrase), p.IsFlat := List.forall_mem_map.mpr fun t ht => isFlat (h t ht)

/-- The name at the root of a reference. -/
theorem isFlat_name {t : TypeRef} {name : DeclaredName} (h : Plain t.given)
    (hname : t.declaredName? = some name) : Phrase.IsFlat [.name name] := by
  cases t with
  | declared name' args dims =>
      obtain rfl := Option.some.inj hname
      rw [given_declared, Plain.append_iff] at h
      exact DeclaredName.isFlat h.1
  | param var upper lower dims => cases hname

end TypeRef

namespace TypeParam

theorem isFlat {p : TypeParam} (h : Plain p.given) : p.declarationPhrase.IsFlat := by
  unfold given at h
  rw [Plain.append_iff, Plain.append_iff, Plain.flatMap_iff] at h
  obtain ⟨⟨hvar, hupper⟩, -⟩ := h
  unfold declarationPhrase
  refine (Phrase.IsFlat.word (TypeVar.plain_sourceName hvar).flat).append
    (.listed (TypeRef.isFlat_phrases fun t ht => ?_) (by decide) (by decide))
  exact hupper t (List.mem_filter.mp ht).1

theorem isFlat_listPhrase {params : List TypeParam} (h : ∀ p ∈ params, Plain p.given) :
    (listPhrase params).IsFlat := by
  unfold listPhrase
  split
  · exact .nil
  · exact ((Phrase.IsFlat.word (by decide)).append
      (.separated (List.forall_mem_map.mpr fun p hp => isFlat (h p hp)) (by decide))).append
      (.word (by decide))

end TypeParam

/-! ## Expressions -/

namespace Expr

theorem givenOfAll_eq_flatMap (es : List Expr) : givenOfAll es = es.flatMap given := by
  induction es with
  | nil => rfl
  | cons e es ih => rw [givenOfAll, ih, List.flatMap_cons]

theorem isFlat_argumentPhrase {ps : List Phrase} (h : ∀ p ∈ ps, p.IsFlat) :
    (argumentPhrase ps).IsFlat :=
  ((Phrase.IsFlat.word (by decide)).append (.separated h (by decide))).append (.word (by decide))

theorem isFlat_diamondPhrase {type : TypeRef} (h : Plain type.given) (diamond : Bool) :
    (diamondPhrase type diamond).IsFlat := by
  unfold diamondPhrase
  split
  · rename_i hname
    exact (TypeRef.isFlat_name h hname).append (.word (by decide))
  · exact TypeRef.isFlat h

theorem isFlat_staticPhrase {type : TypeRef} (h : Plain type.given) :
    (staticPhrase type).IsFlat := by
  unfold staticPhrase
  split
  · rename_i hname
    exact TypeRef.isFlat_name h hname
  · exact TypeRef.isFlat h

/-- The braces of an array are closed where its items end. -/
theorem isFlat_arrayPhrase {sizes items : List Phrase} (hsizes : ∀ p ∈ sizes, p.IsFlat)
    (hitems : ∀ p ∈ items, p.IsFlat) : (arrayPhrase sizes items).IsFlat := by
  unfold arrayPhrase
  split
  · split
    · exact .word (by decide)
    · intro r
      rw [NameTable.spell_append, NameTable.spell_append, Writer.spell_word, Writer.spell_word]
      exact (Phrase.IsFlat.separated hitems (by decide) r).enclosed (by decide) (by decide)
        (by decide) (by decide)
  · exact .flatMap fun size hsize =>
      ((Phrase.IsFlat.word (by decide)).append (hsizes size hsize)).append (.word (by decide))

/-- A receiver is flat if the expression in it is. -/
theorem isFlat_receiver {receiver : Receiver} (h : Plain receiver.given)
    (he : ∀ e, receiver = .expr e → Plain e.given → e.phrase.IsFlat) :
    receiver.phrase.IsFlat := by
  cases receiver with
  | none => exact .nil
  | this => exact .word (by decide)
  | super => exact .word (by decide)
  | static type =>
      rw [Receiver.phrase]
      exact (isFlat_staticPhrase h).append (.word (by decide))
  | expr e =>
      rw [Receiver.phrase]
      have he := he e rfl h
      split
      · exact ((Phrase.IsFlat.word (by decide)).append he).append (.word (by decide))
      · split
        · exact he.append (.word (by decide))
        · exact he

theorem isFlat_phrases {es : List Expr} (h : Plain (givenOfAll es))
    (hes : ∀ e ∈ es, Plain e.given → e.phrase.IsFlat) : ∀ p ∈ phrases es, p.IsFlat := by
  rw [givenOfAll_eq_flatMap, Plain.flatMap_iff] at h
  rw [phrases_eq_map]
  exact List.forall_mem_map.mpr fun e he => hes e he (h e he)

/-- **An expression whose texts are plain is written flat.** -/
theorem isFlat {e : Expr} (h : Plain e.given) : e.phrase.IsFlat := by
  induction e with
  | literal text => exact .word (h text List.mem_cons_self).flat
  | this => exact .word (by decide)
  | reference receiver name ih =>
      rw [given, Plain.append_iff, Plain.cons_iff] at h
      rw [phrase]
      exact (isFlat_receiver h.1 ih).append (.word h.2.1.flat)
  | assign target value ihTarget ihValue =>
      rw [given, Plain.append_iff] at h
      rw [phrase]
      exact ((ihTarget h.1).append (.word (by decide))).append (ihValue h.2)
  | cast type operand ih =>
      rw [given, Plain.append_iff] at h
      rw [phrase]
      exact (((Phrase.IsFlat.word (by decide)).append (TypeRef.isFlat h.1)).append
        (.word (by decide))).append (ih h.2)
  | construct type args diamond ih =>
      rw [given, Plain.append_iff] at h
      rw [phrase]
      exact ((Phrase.IsFlat.word (by decide)).append (isFlat_diamondPhrase h.1 diamond)).append
        (isFlat_argumentPhrase (isFlat_phrases h.2 ih))
  | call receiver name args ihReceiver ihArgs =>
      rw [given, Plain.append_iff, Plain.append_iff, Plain.cons_iff] at h
      rw [phrase]
      exact ((isFlat_receiver h.1.1 ihReceiver).append (.word h.1.2.1.flat)).append
        (isFlat_argumentPhrase (isFlat_phrases h.2 ihArgs))
  | newArray type sizes items ihSizes ihItems =>
      rw [given, Plain.append_iff, Plain.append_iff] at h
      rw [phrase]
      exact ((Phrase.IsFlat.word (by decide)).append (TypeRef.isFlat h.1.1)).append
        (isFlat_arrayPhrase (isFlat_phrases h.1.2 ihSizes) (isFlat_phrases h.2 ihItems))
  | element array index ihArray ihIndex =>
      rw [given, Plain.append_iff] at h
      rw [phrase]
      exact (((ihArray h.1).append (.word (by decide))).append (ihIndex h.2)).append
        (.word (by decide))
  | result value ih =>
      rw [given] at h
      rw [phrase]
      refine (Phrase.IsFlat.word (by decide)).append ?_
      cases value with
      | none => exact .nil
      | some e => exact (Phrase.IsFlat.word (by decide)).append (ih e rfl h)

end Expr

/-! ## Headings -/

theorem Keyword.isFlat (keywords : List Keyword) : (Keyword.phrase keywords).IsFlat := by
  induction keywords with
  | nil => exact .nil
  | cons k keywords ih =>
      have hword : Phrase.IsFlat (Phrase.word (k.text ++ " ")) := by
        refine .word ?_
        cases k <;> decide
      exact hword.append ih

theorem TypeHeading.isFlat {h : TypeHeading} (hplain : Plain h.given) : h.phrase.IsFlat := by
  unfold given at hplain
  rw [Plain.append_iff, Plain.append_iff, Plain.cons_iff, Plain.flatMap_iff, List.flatMap_append,
    Plain.append_iff, Plain.flatMap_iff, Plain.flatMap_iff] at hplain
  obtain ⟨⟨⟨hname, -⟩, hparams⟩, hsuper, hinterfaces⟩ := hplain
  have hopening : ∀ word, Flat word → (Keyword.phrase h.keywords ++ Phrase.word word ++
      Phrase.word h.name ++ TypeParam.listPhrase h.typeParams).IsFlat :=
    fun word hword => (((Keyword.isFlat h.keywords).append (.word hword)).append
      (.word hname.flat)).append (TypeParam.isFlat_listPhrase hparams)
  have hlisted : ∀ word, Flat word →
      (Phrase.listed word ", " (h.interfaces.map (·.phrase))).IsFlat :=
    fun word hword => .listed (TypeRef.isFlat_phrases hinterfaces) hword (by decide)
  unfold phrase
  cases h.kind with
  | interfaceType => exact (hopening _ (by decide)).append (hlisted _ (by decide))
  | classType =>
      refine (hopening _ (by decide)).append (Phrase.IsFlat.append ?_ (hlisted _ (by decide)))
      cases hs : h.superclass with
      | none => exact .nil
      | some t =>
          rw [hs, Option.toList_some] at hsuper
          exact (Phrase.IsFlat.word (by decide)).append
            (TypeRef.isFlat (hsuper t List.mem_cons_self))

/-- A name after a blank. -/
theorem isFlat_blank_name {name : String} (h : IsPlain name) :
    (Phrase.word s!" {name}").IsFlat :=
  .word ((by decide : IsPlain " ").append h).flat

theorem Field.isFlat {f : Field} (h : Plain f.given) : f.phrase.IsFlat := by
  unfold given at h
  rw [Plain.append_iff, Plain.append_iff, Plain.cons_iff] at h
  obtain ⟨⟨htype, hname, -⟩, hvalue⟩ := h
  unfold phrase
  refine (((Keyword.isFlat _).append (TypeRef.isFlat htype)).append
    (isFlat_blank_name hname)).append ?_
  cases hv : f.value with
  | none => exact .nil
  | some e =>
      rw [hv] at hvalue
      exact (Phrase.IsFlat.word (by decide)).append (Expr.isFlat hvalue)

namespace MethodHeading

theorem isFlat_annotationPhrases {h : MethodHeading} (hplain : Plain h.given) :
    ∀ p ∈ h.annotationPhrases, p.IsFlat := by
  unfold given at hplain
  simp only [Plain.append_iff, Plain.flatMap_iff] at hplain
  refine List.forall_mem_map.mpr fun a ha => ?_
  exact (Phrase.IsFlat.word (by decide)).append
    (DeclaredName.isFlat (hplain.1.1.1.2 a ha).1)

theorem isFlat {h : MethodHeading} (hplain : Plain h.given) : h.phrase.IsFlat := by
  unfold given at hplain
  simp only [Plain.append_iff, Plain.flatMap_iff, Plain.cons_iff, List.forall_mem_append] at hplain
  obtain ⟨⟨⟨⟨⟨hname, -⟩, -⟩, htypeParams⟩, hnames⟩, ⟨hreturns, htypes⟩, hthrows⟩ := hplain
  unfold phrase
  refine (((((Keyword.isFlat _).append ?_).append ?_).append (.word hname.flat)).append ?_).append
    (.listed (TypeRef.isFlat_phrases hthrows) (by decide) (by decide))
  · -- the parameters of a generic method
    split
    · exact .nil
    · exact (TypeParam.isFlat_listPhrase htypeParams).append (.word (by decide))
  · -- what it returns
    cases hr : h.returns with
    | none => exact .nil
    | some t =>
        rw [hr, Option.toList_some] at hreturns
        exact (TypeRef.isFlat (hreturns t List.mem_cons_self)).append (.word (by decide))
  · -- what it takes
    refine Expr.isFlat_argumentPhrase (List.forall_mem_map.mpr fun param hparam => ?_)
    exact (TypeRef.isFlat (htypes _ (List.mem_map_of_mem hparam))).append
      (isFlat_blank_name (hnames _ (List.mem_map_of_mem hparam)))

end MethodHeading

end TraitWeaver
