import TraitWeaver.Source.Unit

/-!
# Induction over source

Expressions stand in argument lists, in receivers and after a `return`, and types
stand in types. What is wanted of them is always the same: that something holds of
all of them as soon as it holds of each whose parts have it. These are the two
principles, so that the laws about source need no recursion of their own.

The walks over several parts of one kind are plain `flatMap`s.
-/

namespace TraitWeaver

namespace Expr

/-- What holds of an expression as soon as it holds of its receiver, operands and arguments holds of
all expressions. -/
@[induction_eliminator]
theorem inductOn {motive : Expr → Prop}
    (literal : ∀ text, motive (.literal text))
    (this : motive .this)
    (reference : ∀ receiver name, (∀ e, receiver = .expr e → motive e) →
      motive (.reference receiver name))
    (assign : ∀ target value, motive target → motive value → motive (.assign target value))
    (cast : ∀ type operand, motive operand → motive (.cast type operand))
    (construct : ∀ type args diamond, (∀ e ∈ args, motive e) →
      motive (.construct type args diamond))
    (call : ∀ receiver name args, (∀ e, receiver = .expr e → motive e) → (∀ e ∈ args, motive e) →
      motive (.call receiver name args))
    (newArray : ∀ element sizes items, (∀ e ∈ sizes, motive e) → (∀ e ∈ items, motive e) →
      motive (.newArray element sizes items))
    (element : ∀ array index, motive array → motive index → motive (.element array index))
    (result : ∀ value, (∀ e, value = some e → motive e) → motive (.result value))
    (e : Expr) : motive e := by
  refine @Expr.rec motive (fun receiver => ∀ e, receiver = .expr e → motive e)
    (fun es => ∀ e ∈ es, motive e) (fun value => ∀ e, value = some e → motive e)
    literal this reference assign cast construct call newArray element result
    ?none ?self ?super ?static ?expr ?nil ?cons ?absent ?present e
  case none | self | super => exact fun _ h => nomatch h
  case static => exact fun _ _ h => nomatch h
  case expr => exact fun e he e' h => Receiver.expr.inj h ▸ he
  case nil => exact fun _ h => absurd h List.not_mem_nil
  case cons => exact fun e es he hes => List.forall_mem_cons.mpr ⟨he, hes⟩
  case absent => exact fun _ h => nomatch h
  case present => exact fun e he e' h => Option.some.inj h ▸ he

theorem mentionsOfAll_eq_flatMap (es : List Expr) : mentionsOfAll es = es.flatMap mentions := by
  induction es with
  | nil => rfl
  | cons e es ih => rw [mentionsOfAll, ih, List.flatMap_cons]

theorem mentionsOfOption_eq_flatMap (value : Option Expr) :
    mentionsOfOption value = value.toList.flatMap mentions := by
  cases value with
  | none => rfl
  | some e => exact (List.append_nil _).symm

end Expr

/-! ## Members -/

namespace Member

/-- What holds of a type as soon as it holds of its members, and holds of all other members, holds
of every member. -/
@[induction_eliminator]
theorem inductOn {motive : Member → Prop}
    (field : ∀ f, motive (.field f))
    (abstract : ∀ heading, motive (.abstract heading))
    (method : ∀ heading body, motive (.method heading body))
    (nested : ∀ heading members, (∀ m ∈ members, motive m) → motive (.nested heading members))
    (m : Member) : motive m := by
  refine @Member.rec motive (fun ms => ∀ m ∈ ms, motive m) field abstract method nested ?nil ?cons m
  case nil => exact fun _ h => absurd h List.not_mem_nil
  case cons => exact fun m ms hm hms => List.forall_mem_cons.mpr ⟨hm, hms⟩

theorem mentionsOfAll_eq_flatMap (ms : List Member) : mentionsOfAll ms = ms.flatMap mentions := by
  induction ms with
  | nil => rfl
  | cons m ms ih => rw [mentionsOfAll, ih, List.flatMap_cons]

theorem opsOfAll_eq_flatMap (ms : List Member) : opsOfAll ms = ms.flatMap ops := by
  induction ms with
  | nil => rfl
  | cons m ms ih => rw [opsOfAll, ih, List.flatMap_cons]

end Member

end TraitWeaver
