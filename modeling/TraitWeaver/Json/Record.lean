import TraitWeaver.Json.Basic
import TraitWeaver.Text.Decimal

/-!
# Reading records

How a record is read off a JSON value: a field that is required, one that has a default, and one
that may be absent. A record is an object with the fields as entries, or an array with the first of
the fields in their order. A record of one of several kinds tells the kind in the field `kind`.

Such a value is taken whole before its kind is known, and inside of it names are read more freely:
`inner` says that a value stands there. Readers are told that the value they read is smaller than
the one it is a part of, which lets readers of nested data call themselves.
-/

namespace TraitWeaver.Json

theorem sizeOf_item_lt {items : List Json} {item : Json} (h : item ∈ items) :
    sizeOf item < sizeOf (array items) := by
  have := List.sizeOf_lt_of_mem h
  rw [array.sizeOf_spec]
  omega

theorem sizeOf_entry_lt {entries : List (String × Json)} {entry : String × Json}
    (h : entry ∈ entries) : sizeOf entry.2 < sizeOf (object entries) := by
  have := List.sizeOf_lt_of_mem h
  have : sizeOf entry = 1 + sizeOf entry.1 + sizeOf entry.2 := rfl
  rw [object.sizeOf_spec]
  omega

abbrev Part (whole : Json) : Type := { part : Json // sizeOf part < sizeOf whole }

abbrev PartReader (whole : Json) (α : Type) : Type :=
  (part : Json) → sizeOf part < sizeOf whole → Option α

def parts (items : List Json) : List (Part (array items)) :=
  items.attach.map fun item => ⟨item.val, sizeOf_item_lt item.property⟩

def list? {α : Type} (value : Json) (read : PartReader value α) : Option (List α) :=
  match value with
  | .array items => (parts items).mapM fun item => read item.val item.property
  | _ => none

/-! ## Fields -/

/-- The fields of a record, each under its name. -/
abbrev Fields (whole : Json) : Type := List (String × Part whole)

/-- The fields of a record that has these ones. An object may have others as well. -/
def fields? (names : List String) : (value : Json) → Option (Fields value)
  | .object entries =>
    some (entries.attach.map fun entry =>
      (entry.val.1, ⟨entry.val.2, sizeOf_entry_lt entry.property⟩))
  | .array items => if items.length ≤ names.length then some (names.zip (parts items)) else none
  | _ => none

section

variable {α : Type} {whole : Json} (fields : Fields whole) (name : String)

/-- The field with a name. No field is an answer of its own, two are an error. -/
def field? : Option (Option (Part whole)) :=
  match fields.filter (·.1 == name) with
  | [] => some none
  | [field] => some (some field.2)
  | _ => none

def required (read : PartReader whole α) : Option α := do
  match ← field? fields name with
  | some part => read part.val part.property
  | none => none

/-- A field that may be missing, but is not `null`. -/
def withDefault (default : α) (read : PartReader whole α) : Option α := do
  match ← field? fields name with
  | some part => read part.val part.property
  | none => some default

/-- A field that may be missing or `null`, and is absent then. -/
def optional (read : PartReader whole α) : Option (Option α) := do
  match ← field? fields name with
  | some ⟨.null, _⟩ => some none
  | some part => some (← read part.val part.property)
  | none => some none

end

/-! ## Names -/

/-- The name of the field that tells the kind of a record. It comes first. -/
def kindField : String := "kind"

/-- The number that a literal spells, if it consists of digits. -/
def natural? : Json → Option Nat
  | .number literal =>
    if literal.toList.all Char.isDigit then some (Text.digitsValue literal.toList) else none
  | _ => none

/-- Reads the name of a kind. Inside a value with a kind it may be a number, which counts the kinds
from zero. -/
def kindName? (kinds : List String) (inner : Bool) (value : Json) : Option String :=
  match value.string? with
  | some name => some name
  | none => if inner then value.natural?.bind (kinds[·]?) else none

/-- The value that tells the kind of a record: in an object the only one under this name, in an
array the first one. -/
def kindValue? (record : Json) : Option Json :=
  match record.entries? with
  | some entries =>
    match entries.filter (·.1 == kindField) with
    | [(_, value)] => some value
    | _ => none
  | none => record.items?.bind (·.head?)

def kind? (kinds : List String) (inner : Bool) (record : Json) : Option String :=
  record.kindValue?.bind (kindName? kinds inner)

/-- Reads a name that is chosen from several. It may also be the only key of an object, with `null`
as its value, and inside a value with a kind also with an empty object. -/
def choice? (inner : Bool) : Json → Option String
  | .string name => some name
  | .object [(name, .null)] => some name
  | .object [(name, .object [])] => if inner then some name else none
  | _ => none

end TraitWeaver.Json
