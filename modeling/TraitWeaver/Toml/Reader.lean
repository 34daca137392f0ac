import TraitWeaver.Toml.Scalar
import TraitWeaver.Toml.Token

/-!
# Reading TOML

A text is read in one pass over its tokens, with a stack of the arrays and tables that are open in
the value of an entry. What comes out are the statements of the text, which then make the document.
-/

namespace TraitWeaver.Toml

/-- How many parts a key may not have, and how deep values may not be nested. -/
def nestingLimit : Nat := 80

/-! ## Keys -/

/-- A key that is being read: its parts in reverse, and whether one more must follow. -/
structure PartialKey where
  parts : List String
  wantsPart : Bool
deriving DecidableEq, Repr

namespace PartialKey

def start : PartialKey := ⟨[], true⟩

def addPart (k : PartialKey) (part : String) : Option PartialKey :=
  if k.wantsPart then some ⟨part :: k.parts, false⟩ else none

def addDot (k : PartialKey) : Option PartialKey :=
  if k.wantsPart then none else some { k with wantsPart := true }

/-- A character that a part may have without being in quotes. -/
def isBareChar (c : Char) : Bool := c.isAlphanum || c = '_' || c = '-'

/-- Adds what stands between two dots of a word, if anything. -/
def addPiece (k : PartialKey) (piece : String) : Option PartialKey :=
  if piece = "" then some k
  else if piece.toList.all isBareChar then k.addPart piece
  else none

def addWord (k : PartialKey) (word : String) : Option PartialKey :=
  match Text.pieces '.' word with
  | [] => some k
  | first :: rest => do
    rest.foldlM (fun k piece => do (← k.addDot).addPiece piece) (← k.addPiece first)

def add (k : PartialKey) : Token → Option PartialKey
  | .word word => k.addWord word
  | .text part false => k.addPart part
  | _ => none

def finish (k : PartialKey) : Option Key :=
  if k.wantsPart || nestingLimit ≤ k.parts.length then none else some k.parts.reverse

end PartialKey

/-! ## Values -/

/-- What the value that is being read stands in. -/
inductive Frame where
  /-- The entry of a statement. -/
  | entry (key : Key)
  /-- An array, with its items in reverse. -/
  | array (items : List Value)
  /-- A table between braces, with its entries in reverse, and the key of the value. -/
  | table (entries : List (Key × Value)) (key : Key)

/-- What the reader waits for. -/
inductive ReadState where
  /-- A statement. -/
  | line
  /-- The end of a line. -/
  | lineEnd
  /-- The key of a header. -/
  | header (isArray : Bool) (key : PartialKey)
  /-- The second closing bracket of a header. -/
  | secondBracket (key : Key)
  /-- The key of an entry. -/
  | entryKey (key : PartialKey)
  /-- The key of an entry between braces; right after the opening brace also the closing one. -/
  | innerKey (frames : List Frame) (entries : List (Key × Value)) (key : PartialKey)
    (mayClose : Bool)
  /-- A value, or in an array its end. -/
  | value (frames : List Frame)
  /-- A comma, or the end of an array or a table. -/
  | separator (frames : List Frame)

namespace ReadState

/-- The state after a token, and the statement that it completes. -/
abbrev Step : Type := Option (ReadState × Option Statement)

/-- A value is complete. -/
def add (frames : List Frame) (v : Value) : Step :=
  match frames with
  | [] => none
  | .entry key :: _ => some (lineEnd, some (.entry key v))
  | .array items :: frames => some (separator (.array (v :: items) :: frames), none)
  | .table entries key :: frames =>
    some (separator (.table ((key, v) :: entries) [] :: frames), none)

def closeTable (frames : List Frame) (entries : List (Key × Value)) : Step := do
  add frames (← Value.ofEntries? entries.reverse)

def goTo (state : ReadState) : Step := some (state, none)

/-- One more array or table may be opened. The first frame is that of the entry. -/
def hasRoom (frames : List Frame) : Bool := frames.length < nestingLimit

def step : ReadState → Token → Step
  | line, token =>
    match token with
    | .newline => goTo line
    | .openBracket _ => goTo (header false .start)
    | _ => do goTo (entryKey (← PartialKey.start.add token))
  | lineEnd, token => if token = .newline then goTo line else none
  | header isArray k, token =>
    match token with
    | .openBracket true => if !isArray && k = .start then goTo (header true k) else none
    | .closeBracket _ => do
      let k ← k.finish
      if isArray then goTo (secondBracket k) else some (lineEnd, some (.header k))
    | _ => do goTo (header isArray (← k.add token))
  | secondBracket k, token =>
    if token = .closeBracket true then some (lineEnd, some (.arrayHeader k)) else none
  | entryKey k, token =>
    match token with
    | .equals => do goTo (value [.entry (← k.finish)])
    | _ => do goTo (entryKey (← k.add token))
  | innerKey frames entries k mayClose, token =>
    match token with
    | .equals => do goTo (value (.table entries (← k.finish) :: frames))
    | .closeBrace => if mayClose then closeTable frames entries else none
    | _ => do goTo (innerKey frames entries (← k.add token) false)
  | value frames, token =>
    match token, frames with
    | .word word, _ => do add frames (← Value.ofWord? word)
    | .text text _, _ => add frames (.text text)
    | .openBracket _, _ => if hasRoom frames then goTo (value (.array [] :: frames)) else none
    | .openBrace, _ => if hasRoom frames then goTo (innerKey frames [] .start true) else none
    | .newline, .array _ :: _ => goTo (value frames)
    | .closeBracket _, .array items :: frames => add frames (.array items.reverse)
    | _, _ => none
  | separator frames, token =>
    match token, frames with
    | .newline, .array _ :: _ => goTo (separator frames)
    | .comma, .array _ :: _ => goTo (value frames)
    | .comma, .table entries _ :: frames => goTo (innerKey frames entries .start false)
    | .closeBracket _, .array items :: frames => add frames (.array items.reverse)
    | .closeBrace, .table entries _ :: frames => closeTable frames entries
    | _, _ => none

def run : ReadState → List Token → Option (List Statement)
  | line, [] | lineEnd, [] => some []
  | _, [] => none
  | state, token :: rest => do
    let (state, statement) ← state.step token
    return statement.toList ++ (← run state rest)

end ReadState

def read? (s : String) : Option Table := do
  Table.ofStatements? (← ReadState.line.run (tokens s))

end TraitWeaver.Toml
