/-!
# JSON values

A JSON value as a tree. An object is the list of its entries in the order of the text, so that it
can hold a key twice, and a number is its literal.
-/

namespace TraitWeaver

inductive Json where
  | null
  | bool (value : Bool)
  /-- A number, as its literal. -/
  | number (literal : String)
  | string (value : String)
  | array (items : List Json)
  | object (entries : List (String × Json))
deriving Inhabited

namespace Json

def ofNat (n : Nat) : Json := .number (toString n)

def ofStrings (items : List String) : Json := .array (items.map .string)

def ofString? : Option String → Json
  | some s => .string s
  | none => .null

def entries? : Json → Option (List (String × Json))
  | .object entries => some entries
  | _ => none

def items? : Json → Option (List Json)
  | .array items => some items
  | _ => none

def string? : Json → Option String
  | .string s => some s
  | _ => none

def bool? : Json → Option Bool
  | .bool b => some b
  | _ => none

end Json

end TraitWeaver
