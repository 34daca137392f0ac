import TraitWeaver.Json.Schema
import TraitWeaver.Json.Token

/-!
# Reading JSON

A JSON text is read in one pass over its tokens with a stack of the arrays and objects that are
open, each with its schema. The first token that is wrong, or does not fit its schema, ends the
reading. A part that is passed over has to be JSON, but its strings and numbers need not have a
value, and it may be nested to any depth; what is kept is nested at most `depthLimit` deep.
-/

namespace TraitWeaver.Json

/-- Why a text cannot be read. -/
inductive Fault where
  /-- The text ends too early. -/
  | endOfText
  /-- The text is not JSON. -/
  | malformed
  /-- The text is JSON of another form, as far as it has been read. -/
  | wrongForm
deriving DecidableEq, Repr

/-- How deep the arrays and objects that are kept may be nested. -/
def depthLimit : Nat := 127

/-- An array or object that is open, with its schema and what has been read of it in reverse. -/
inductive Frame where
  | array (schema : Option Schema) (items : List Json)
  /-- An object, with the field whose value is being read. -/
  | object (schema : Option Schema) (entries : List (String × Json)) (field : String)
  /-- An object whose only key is one of several names. -/
  | choice (names : List String)

/-- What the reader waits for. -/
inductive ReadState where
  /-- A value; right after an opening bracket also the closing one. -/
  | value (frames : List Frame) (schema : Option Schema) (mayClose : Bool)
  /-- The key of an entry; right after an opening brace also the closing one. -/
  | key (frames : List Frame) (schema : Option Schema) (entries : List (String × Json))
    (mayClose : Bool)
  /-- The colon after a key. -/
  | colon (frames : List Frame) (schema : Option Schema) (entries : List (String × Json))
    (field : String)
  /-- A comma, or the end of the array or object. -/
  | separator (frames : List Frame) (frame : Frame)
  /-- Nothing more. -/
  | done (value : Json)

namespace ReadState

/-- A value is complete. -/
def add (frames : List Frame) (value : Json) : ReadState :=
  match frames with
  | [] => done value
  | .array schema items :: frames => separator frames (.array schema (value :: items))
  | .object schema entries field :: frames =>
    if (Schema.ofField schema field).isSome then
      separator frames (.object schema ((field, value) :: entries) field)
    else
      separator frames (.object schema entries field)
  | .choice names :: frames => colon frames (some (.choice names)) [] (value.string?.getD "")

/-- A scalar is complete. One that is kept must have a value, which must fit. -/
def addScalar (frames : List Frame) (schema : Option Schema) (value : Option Json) :
    Except Fault ReadState :=
  match schema, value with
  | none, _ => .ok (add frames .null)
  | some _, none => .error .malformed
  | some schema, some value =>
    if schema.acceptsScalar value then .ok (add frames value) else .error .wrongForm

/-- An array or object is complete. -/
def addWhole (frames : List Frame) (schema : Option Schema) (value : Json) :
    Except Fault ReadState :=
  if Schema.isComplete schema value then .ok (add frames value) else .error .wrongForm

/-- One more array or object may be opened. -/
def hasRoom (frames : List Frame) (schema : Option Schema) : Bool :=
  schema.isNone || frames.length < depthLimit

def openArray (frames : List Frame) (schema : Option Schema) : Except Fault ReadState :=
  let schema := schema.map (·.core)
  if schema.any (!·.acceptsArray) then .error .wrongForm
  else if !hasRoom frames schema then .error .malformed
  else .ok (value (.array schema [] :: frames) (Schema.ofItem schema 0) true)

def openObject (frames : List Frame) (schema : Option Schema) : Except Fault ReadState :=
  let schema := schema.map (·.core)
  if schema.any (!·.acceptsObject) then .error .wrongForm
  else if !hasRoom frames schema then .error .malformed
  else
    match schema with
    | some (.choice names) => .ok (value (.choice names :: frames) (some (.name names)) false)
    | schema => .ok (key frames schema [] true)

/-- The fault of a text that ends within a string. A string that is kept must be the beginning of a
value. -/
def faultOfOpenString (schema : Option Schema) (isBroken : Bool) : Fault :=
  if schema.isSome && isBroken then .malformed else .endOfText

/-- The fault of a text that ends within a number. A number that is not kept is taken for what there
is of it, and that is no number. -/
def faultOfOpenNumber (schema : Option Schema) : Fault :=
  if schema.isSome then .endOfText else .malformed

/-- Reads the token that a value begins with. In the place of a choice there is no JSON but strings
and objects. -/
def beginValue (frames : List Frame) (schema : Option Schema) : Token → Except Fault ReadState
  | .string v => addScalar frames schema (v.map .string)
  | .openObject => openObject frames schema
  | .openString isBroken => .error (faultOfOpenString schema isBroken)
  | token =>
    if Schema.isChoice schema then .error .malformed
    else
      match token with
      | .scalar v => addScalar frames schema v
      | .openArray => openArray frames schema
      | .openWord => .error .endOfText
      | .openNumber => .error (faultOfOpenNumber schema)
      | _ => .error .malformed

/-- Reads a key, which is kept if its object is. -/
def beginField (frames : List Frame) (schema : Option Schema) (entries : List (String × Json))
    (key : Option String) : Except Fault ReadState :=
  match schema, key with
  | none, _ => .ok (colon frames schema entries "")
  | some _, none => .error .malformed
  | schema, some field =>
    if Schema.isUnique schema field && entries.any (·.1 == field) then .error .wrongForm
    else .ok (colon frames schema entries field)

def step : ReadState → Token → Except Fault ReadState
  | value (.array schema items :: frames) _ true, .closeArray =>
    addWhole frames schema (.array items.reverse)
  | value frames schema _, token => beginValue frames schema token
  | key frames schema entries mayClose, token =>
    match token with
    | .string v => beginField frames schema entries v
    | .closeObject =>
      if mayClose then addWhole frames schema (.object entries.reverse) else .error .malformed
    | .openString isBroken => .error (faultOfOpenString schema isBroken)
    | _ => .error .malformed
  | colon frames schema entries field, token =>
    match token with
    | .colon =>
      .ok (value (.object schema entries field :: frames) (Schema.ofField schema field) false)
    | _ => .error .malformed
  | separator frames (.array schema items), token =>
    match token with
    | .comma =>
      if Schema.hasItem schema items.length then
        .ok (value (.array schema items :: frames) (Schema.ofItem schema items.length) false)
      else
        .error .malformed
    | .closeArray => addWhole frames schema (.array items.reverse)
    | _ => .error .malformed
  | separator frames (.object schema entries _), token =>
    match token with
    | .comma =>
      if Schema.isChoice schema then .error .malformed else .ok (key frames schema entries false)
    | .closeObject => addWhole frames schema (.object entries.reverse)
    | _ => .error .malformed
  | separator _ (.choice _), _ => .error .malformed
  | done _, _ => .error .malformed

def run : ReadState → List Token → Except Fault Json
  | done result, [] => .ok result
  | _, [] => .error .endOfText
  | state, token :: rest =>
    match state.step token with
    | .ok state => run state rest
    | .error fault => .error fault

end ReadState

def read (schema : Schema) (s : String) : Except Fault Json :=
  (ReadState.value [] (some schema) false).run (tokens s)

end TraitWeaver.Json
