import TraitWeaver.Json.Record

/-!
# Schemas

What a JSON value has to be, and what is kept of it. A schema is met token by token, so that what
does not fit is found where it stands: a scalar is looked at when it is complete, an array or object
when it is opened, at each of its parts, and when it is closed. A part for which there is no schema
is passed over.
-/

namespace TraitWeaver.Json

/-- What a value has to be. -/
inductive Schema where
  /-- Anything, and all of it is kept. -/
  | whole
  | null
  | text
  | flag
  /-- A text that is one of these names. -/
  | name (names : List String)
  /-- One of these names, as a text or as the only key of an object that holds `null`. -/
  | choice (names : List String)
  /-- What the schema says, or `null`. -/
  | optional (schema : Schema)
  | list (item : Schema)
  /-- An object with these fields, of which some are required, or an array of the first of them. -/
  | record (required : List String) (fields : List (String × Schema))
  /-- A record of one of these kinds, which is taken whole and has to be acceptable then. -/
  | kinded (kinds : List String) (accepts : Json → Bool)

namespace Schema

/-- The schema for a value that is not `null`. -/
def core : Schema → Schema
  | optional schema => schema.core
  | schema => schema

def isChoice : Option Schema → Bool
  | some (choice _) => true
  | _ => false

def acceptsScalar : Schema → Json → Bool
  | optional _, .null => true
  | optional schema, value => schema.acceptsScalar value
  | whole, _ | null, .null | text, .string _ | flag, .bool _ => true
  | name names, .string s | choice names, .string s => names.contains s
  | _, _ => false

def acceptsArray (schema : Schema) : Bool :=
  match schema.core with
  | whole | list _ | record .. | kinded .. => true
  | _ => false

def acceptsObject (schema : Schema) : Bool :=
  match schema.core with
  | whole | choice _ | record .. | kinded .. => true
  | _ => false

/-! ## Parts

These are asked of the schema of an array or object that is open, which is never optional.
-/

/-- There may be an item with this many items before it. -/
def hasItem (schema : Option Schema) (before : Nat) : Bool :=
  match schema with
  | some (record _ fields) => before < fields.length
  | _ => true

/-- What the item with this many items before it has to be. -/
def ofItem (schema : Option Schema) (before : Nat) : Option Schema :=
  match schema with
  | some whole => some whole
  | some (list item) => some item
  | some (record _ fields) => fields[before]?.map (·.2)
  | some (kinded kinds _) => some (if before = 0 then name kinds else whole)
  | _ => none

/-- What the field with this name has to be. -/
def ofField (schema : Option Schema) (field : String) : Option Schema :=
  match schema with
  | some whole => some whole
  | some (choice _) => some null
  | some (record _ fields) => fields.lookup field
  | some (kinded kinds _) => some (if field = kindField then name kinds else whole)
  | _ => none

/-- The field with this name may occur only once. -/
def isUnique (schema : Option Schema) (field : String) : Bool :=
  match schema with
  | some (record _ fields) => (fields.lookup field).isSome
  | some (kinded ..) => field = kindField
  | _ => false

/-- An array or object that consists of parts that fit may be closed. -/
def isComplete (schema : Option Schema) (value : Json) : Bool :=
  match schema, value with
  | some (record required fields), .array items =>
    required.all fun field => (fields.take items.length).any (·.1 == field)
  | some (record required _), .object entries =>
    required.all fun field => entries.any (·.1 == field)
  | some (kinded _ accepts), value => accepts value
  | _, _ => true

end Schema

end TraitWeaver.Json
