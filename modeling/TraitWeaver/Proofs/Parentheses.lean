import TraitWeaver.Proofs.Braces

/-!
# Parentheses

Access to a field, a call and an index bind tighter than a cast. What is done to a cast
reads as done to the operand of the cast, unless there are parentheses around the cast.
Likewise, an index behind the sizes of a new array reads as one more size.

A receiver gets these parentheses and an array does not. So a cast and a chain of
operations can be told apart, whichever comes first, if the chain begins with a field or
a call. If it begins with an index, both orders come to one phrase
(`phrase_follow_cast_of_index`), and so do a new array with indices and one with as many
more sizes (`phrase_follow_newArray`).

What follows the first operation is of no account: no operation is a cast, so it is written
as it is and the rest of the chain behind it (`phrase_follow`).
-/

namespace TraitWeaver

/-- What may be done to an expression by writing something behind it. -/
inductive Postfix where
  | field (name : String)
  | call (name : String) (args : List Expr)
  | index (index : Expr)

namespace Postfix

def isIndex : Postfix → Bool
  | .index _ => true
  | _ => false

/-- What is written behind an expression. -/
def phrase : Postfix → Phrase
  | .field name => Phrase.word "." ++ Phrase.word name
  | .call name args =>
    Phrase.word "." ++ Phrase.word name ++ Expr.argumentPhrase (Expr.phrases args)
  | .index i => Phrase.word "[" ++ i.phrase ++ Phrase.word "]"

end Postfix

/-! ## Phrases with text -/

namespace Phrase

theorem hasText_append (p q : Phrase) : (p ++ q).hasText = (p.hasText || q.hasText) :=
  List.any_append

/-- A phrase without text is spelled as none. -/
theorem spell_eq_empty (r : NameTable) {p : Phrase} (h : p.hasText = false) : r.spell p = "" := by
  induction p with
  | nil => rfl
  | cons piece p ih =>
      obtain ⟨hpiece, hrest⟩ := Bool.or_eq_false_iff.mp h
      cases piece with
      | name n => cases hpiece
      | word text =>
          obtain rfl : text = "" := bne_eq_false_iff_eq.mp hpiece
          have happend := r.spell_append (word "") p
          rw [Writer.spell_word, ih hrest] at happend
          exact happend

theorem hasText_of_spell_ne {r : NameTable} {p : Phrase} (h : r.spell p ≠ "") :
    p.hasText = true :=
  Bool.of_not_eq_false fun hp => h (spell_eq_empty r hp)

end Phrase

namespace Expr

/-! ## Chains of operations -/

def apply (e : Expr) : Postfix → Expr
  | .field name => e.fieldOf name
  | .call name args => e.callOn name args
  | .index i => e.element i

/-- The operations on an expression, one after the other. -/
def follow (e : Expr) (ops : List Postfix) : Expr := ops.foldl apply e

variable {e : Expr}

theorem follow_cons (e : Expr) (op : Postfix) (ops : List Postfix) :
    e.follow (op :: ops) = (e.apply op).follow ops := rfl

theorem isCast_apply (e : Expr) (op : Postfix) : (e.apply op).isCast = false := by
  cases op with
  | field | call | index => rfl

/-- An index is written behind anything. -/
theorem phrase_index (e i : Expr) :
    (e.apply (.index i)).phrase = e.phrase ++ (Postfix.index i).phrase := by
  show e.phrase ++ Phrase.word "[" ++ i.phrase ++ Phrase.word "]" = _
  rw [Postfix.phrase]
  simp only [List.append_assoc]

/-- **An operation is written behind an expression**, if that is no cast and has text. -/
theorem phrase_apply (hcast : e.isCast = false) (htext : e.phrase.hasText = true) (op : Postfix) :
    (e.apply op).phrase = e.phrase ++ op.phrase := by
  have hreceiver : (Receiver.expr e).phrase = e.phrase ++ Phrase.word "." := by
    rw [Receiver.phrase, hcast, htext]
    rfl
  cases op with
  | field name =>
      show (Receiver.expr e).phrase ++ Phrase.word name = _
      rw [hreceiver, Postfix.phrase, List.append_assoc]
  | call name args =>
      show (Receiver.expr e).phrase ++ Phrase.word name ++ argumentPhrase (phrases args) = _
      rw [hreceiver, Postfix.phrase]
      simp only [List.append_assoc]
  | index i => exact phrase_index e i

/-- No operation takes the text of an expression away. -/
theorem hasText_apply (h : e.phrase.hasText = true) (op : Postfix) :
    (e.apply op).phrase.hasText = true := by
  have hreceiver : (Receiver.expr e).phrase.hasText = true := by
    rw [Receiver.phrase]
    split
    · rfl
    · rw [Phrase.hasText_append, h, Bool.true_or]
  cases op with
  | field name =>
      show ((Receiver.expr e).phrase ++ Phrase.word name).hasText = true
      rw [Phrase.hasText_append, hreceiver, Bool.true_or]
  | call name args =>
      show ((Receiver.expr e).phrase ++ Phrase.word name ++
        argumentPhrase (phrases args)).hasText = true
      rw [List.append_assoc, Phrase.hasText_append, hreceiver, Bool.true_or]
  | index i => rw [phrase_index, Phrase.hasText_append, h, Bool.true_or]

/-- **A chain of operations is written behind an expression**, if that is no cast and has text. -/
theorem phrase_follow (hcast : e.isCast = false) (htext : e.phrase.hasText = true)
    (ops : List Postfix) : (e.follow ops).phrase = e.phrase ++ ops.flatMap Postfix.phrase := by
  induction ops generalizing e with
  | nil => exact (List.append_nil _).symm
  | cons op ops ih =>
      rw [follow_cons, ih (isCast_apply e op) (hasText_apply htext op), phrase_apply hcast htext,
        List.flatMap_cons, List.append_assoc]

/-! ## Casts -/

/-- What stands before the operand of a cast. -/
def castPhrase (t : TypeRef) : Phrase := Phrase.word "(" ++ t.phrase ++ Phrase.word ") "

theorem phrase_cast (t : TypeRef) (e : Expr) : (cast t e).phrase = castPhrase t ++ e.phrase := rfl

/-- **A cast is put between parentheses** before a field or a call. -/
theorem text_apply_of_isCast (names : NameTable) (hcast : e.isCast = true) {op : Postfix}
    (hop : op.isIndex = false) :
    (e.apply op).text names = "(" ++ e.text names ++ ")" ++ names.spell op.phrase := by
  have hreceiver : names.spell (Receiver.expr e).phrase = "(" ++ e.text names ++ ")" ++ "." := by
    have hdot : ")." = ")" ++ "." := rfl
    rw [Receiver.phrase, hcast, if_pos rfl, NameTable.spell_append, NameTable.spell_append,
      Writer.spell_word, Writer.spell_word, hdot, ← String.append_assoc]
    rfl
  cases op with
  | field name =>
      show names.spell ((Receiver.expr e).phrase ++ Phrase.word name) = _
      rw [NameTable.spell_append, hreceiver, Postfix.phrase, NameTable.spell_append,
        Writer.spell_word _ ".", String.append_assoc]
  | call name args =>
      show names.spell ((Receiver.expr e).phrase ++ Phrase.word name ++
        argumentPhrase (phrases args)) = _
      rw [Postfix.phrase, List.append_assoc, List.append_assoc, NameTable.spell_append, hreceiver,
        NameTable.spell_append _ (Phrase.word "."), Writer.spell_word, String.append_assoc]
  | index => cases hop

/-- **Before an index a cast is written as the operand would be.** -/
theorem phrase_follow_cast_of_index (t : TypeRef) (x i : Expr) (ops : List Postfix) :
    ((cast t x).follow (.index i :: ops)).phrase =
      (cast t (x.follow (.index i :: ops))).phrase := by
  have hfollow : ∀ e : Expr, (e.follow (.index i :: ops)).phrase =
      e.phrase ++ (Postfix.index i).phrase ++ ops.flatMap Postfix.phrase := by
    intro e
    have htext : (e.apply (.index i)).phrase.hasText = true := by
      rw [phrase_index, Phrase.hasText_append]
      exact Bool.or_true _
    rw [follow_cons, phrase_follow (isCast_apply e _) htext, phrase_index]
  rw [hfollow, phrase_cast, phrase_cast, hfollow]
  simp only [List.append_assoc]

/-! ## Arrays -/

/-- **Indices of a new array are written as more sizes would be.** -/
theorem phrase_follow_newArray (t : TypeRef) {sizes : List Expr} (hsizes : sizes ≠ [])
    (indices : List Expr) : ((newArray t sizes []).follow (indices.map .index)).phrase =
      (newArray t (sizes ++ indices) []).phrase := by
  have hnew : ∀ es : List Expr, es ≠ [] → (newArray t es []).phrase =
      Phrase.word "new " ++ t.phrase ++ es.flatMap fun e => (Postfix.index e).phrase := by
    intro es hes
    have hempty : (phrases es).isEmpty = false := by
      rw [phrases_eq_map, List.isEmpty_map]
      exact List.isEmpty_eq_false_iff.mpr hes
    rw [phrase, arrayPhrase, hempty, phrases_eq_map es, if_neg Bool.false_ne_true, List.flatMap_map]
    rfl
  have htext : (newArray t sizes []).phrase.hasText = true := rfl
  have hall : sizes ++ indices ≠ [] := List.append_ne_nil_of_left_ne_nil hsizes indices
  rw [phrase_follow rfl htext, hnew sizes hsizes, hnew _ hall, List.flatMap_append,
    List.append_assoc, List.flatMap_map]

/-! ## Which comes first -/

theorem text_cast (names : NameTable) (t : TypeRef) (e : Expr) :
    (cast t e).text names = names.spell (castPhrase t) ++ e.text names :=
  NameTable.spell_append ..

theorem text_apply (names : NameTable) (hcast : e.isCast = false) (htext : e.phrase.hasText = true)
    (op : Postfix) : (e.apply op).text names = e.text names ++ names.spell op.phrase := by
  unfold text
  rw [phrase_apply hcast htext, NameTable.spell_append]

/-- **The rest of a chain is written behind its first operation.** -/
theorem text_follow_cons (names : NameTable) (htext : e.phrase.hasText = true) (op : Postfix)
    (ops : List Postfix) : (e.follow (op :: ops)).text names =
      (e.apply op).text names ++ names.spell (ops.flatMap Postfix.phrase) := by
  unfold text
  rw [follow_cons, phrase_follow (isCast_apply e op) (hasText_apply htext op),
    NameTable.spell_append]

/-- A parenthesis can be told from one that comes after a blank. -/
theorem parenthesis_append_ne (s r : String) : "(" ++ (s ++ " " ++ r) ≠ s ++ " " ++ ("(" ++ r) := by
  intro h
  have hlist : ('(' :: s.toList) ++ (' ' :: r.toList) =
      (s.toList ++ [' ']) ++ ('(' :: r.toList) := by
    simpa [String.toList_append] using congrArg String.toList h
  have hrest := List.append_inj_right hlist (by simp)
  exact absurd (List.cons.inj hrest).1 (by decide)

/-- **Before a field or a call it can be seen that a cast was operated on.** -/
theorem text_follow_cast_ne (names : NameTable) (t : TypeRef) {x : Expr}
    (hx : x.phrase.hasText = true) {op : Postfix} (hop : op.isIndex = false) (ops : List Postfix) :
    ((cast t x).follow (op :: ops)).text names ≠ (cast t (x.follow (op :: ops))).text names := by
  have hcast : (cast t x).phrase.hasText = true := rfl
  rw [text_follow_cons names hcast, text_apply_of_isCast names rfl hop, text_cast, text_cast,
    text_follow_cons names hx]
  intro h
  cases hxcast : x.isCast with
  | false =>
      -- there are no parentheses on the right
      rw [text_apply names hxcast hx] at h
      have hlength := congrArg String.length h
      simp only [String.length_append] at hlength
      have hopen : "(".length = 1 := rfl
      omega
  | true =>
      -- there are as many, but the first one comes after the type
      rw [text_apply_of_isCast names hxcast hop] at h
      have hhead : names.spell (castPhrase t) = "(" ++ names.spell t.phrase ++ ")" ++ " " := by
        have hblank : ") " = ")" ++ " " := rfl
        unfold castPhrase
        rw [NameTable.spell_append, NameTable.spell_append, Writer.spell_word, Writer.spell_word,
          hblank, ← String.append_assoc]
      rw [hhead] at h
      refine parenthesis_append_ne ("(" ++ names.spell t.phrase ++ ")") (x.text names ++ ")" ++
        names.spell op.phrase ++ names.spell (ops.flatMap Postfix.phrase)) ?_
      simpa only [String.append_assoc] using h

/-- **Which came first**, the cast or the operations, can be seen unless these begin with an
index. -/
theorem text_follow_cast_eq_iff {names : NameTable} (t : TypeRef) {x : Expr}
    (hx : x.text names ≠ "") (ops : List Postfix) :
    ((cast t x).follow ops).text names = (cast t (x.follow ops)).text names ↔
      ∀ op ∈ ops.head?, op.isIndex = true := by
  cases ops with
  | nil => exact iff_of_true rfl nofun
  | cons op ops =>
      rw [List.head?_cons]
      simp only [Option.mem_def, Option.some.injEq, forall_eq']
      cases hop : op.isIndex with
      | false =>
          have htext := Phrase.hasText_of_spell_ne hx
          exact iff_of_false (text_follow_cast_ne names t htext hop ops) Bool.false_ne_true
      | true =>
          cases op with
          | index i =>
              exact iff_of_true (congrArg names.spell (phrase_follow_cast_of_index t x i ops)) rfl
          | field | call => cases hop

/-- **What the text of a chain tells of its grouping.** Whether a chain of operations is one on a
cast or under it can be seen exactly if it begins with a field or a call. Indices of a new array
cannot be told from sizes. -/
theorem grouping_written (names : NameTable) (t : TypeRef) :
    (∀ (x : Expr) (ops : List Postfix), x.text names ≠ "" →
      (((cast t x).follow ops).text names = (cast t (x.follow ops)).text names ↔
        ∀ op ∈ ops.head?, op.isIndex = true)) ∧
    ∀ sizes indices : List Expr, sizes ≠ [] →
      ((newArray t sizes []).follow (indices.map .index)).text names =
        (newArray t (sizes ++ indices) []).text names :=
  ⟨fun _ ops hx => text_follow_cast_eq_iff t hx ops, fun _ indices hsizes =>
    congrArg names.spell (phrase_follow_newArray t hsizes indices)⟩

/-- `((Shelf) o).books` is no cast of `o.books`, nor is `((Shelf) o).find(0)[1]` one of
`o.find(0)[1]`. But `(Shelf) o[0]` is written for either order, and `new Shelf[2][0]` for an array
of arrays as for a place in one. -/
theorem grouping_written_shelf :
    let names : NameTable := .empty "app"
    let shelf : TypeRef := .plain ⟨"app", "Shelf"⟩
    let o : Expr := .var "o"
    let zero : Expr := .literal "0"
    let found : List Postfix := [.call "find" [zero], .index (.literal "1")]
    o.text names ≠ "" ∧
      ((cast shelf o).fieldOf "books").text names ≠ (cast shelf (o.fieldOf "books")).text names ∧
      ((cast shelf o).follow found).text names ≠ (cast shelf (o.follow found)).text names ∧
      (element (cast shelf o) zero).text names = (cast shelf (element o zero)).text names ∧
      (element (newArray shelf [.literal "2"] []) zero).text names =
        (newArray shelf [.literal "2", zero] []).text names := by
  intro names shelf o zero found
  have ho : o.text names ≠ "" := by decide
  obtain ⟨hcast, harray⟩ := grouping_written names shelf
  refine ⟨ho, fun h => ?_, fun h => ?_, ?_, ?_⟩
  · exact absurd ((hcast o [.field "books"] ho).mp h _ rfl) (by decide)
  · exact absurd ((hcast o found ho).mp h _ rfl) (by decide)
  · refine (hcast o [.index zero] ho).mpr ?_
    rintro _ ⟨⟩
    rfl
  · exact harray [.literal "2"] [zero] (by simp)

/-- **An index does not keep the grouping**, neither that of a cast nor that of a new array. -/
theorem not_forall_text_element_ne :
    (¬∀ (names : NameTable) (t : TypeRef) (x i : Expr), x.text names ≠ "" →
      (element (cast t x) i).text names ≠ (cast t (element x i)).text names) ∧
    ¬∀ (names : NameTable) (t : TypeRef) (sizes : List Expr) (i : Expr), sizes ≠ [] →
      (element (newArray t sizes []) i).text names ≠
        (newArray t (sizes ++ [i]) []).text names := by
  refine ⟨fun h => ?_, fun h => ?_⟩
  · exact h (.empty "app") (.plain ⟨"app", "Shelf"⟩) (.var "o") (.literal "0") (by decide)
      (by decide)
  · exact h (.empty "app") (.plain ⟨"app", "Shelf"⟩) [.literal "2"] (.literal "0") (by simp)
      (by decide)

end Expr

end TraitWeaver
