/-!
# TOML values

A document is a table, which statements fill in one after another. How a table in it has come about
decides whether a later statement may add to it:

* a table that a header names takes the entries that follow its header, and no other header may name
  it again;
* a table that is only implied, because a header names a table in it, may be named by one header
  later on;
* a table that dotted keys have made may be added to by dotted keys, but not be named by a header;
* a table between braces, and an array between brackets, cannot be added to at all;
* of an array of tables only the last one can be added to, and a further header adds one more.

Numbers and times are read to see that they are in order, but what they are worth is not kept.
-/

namespace TraitWeaver.Toml

/-- A key, as the parts between its dots. -/
abbrev Key : Type := List String

/-- How a table has come about. -/
inductive Origin where
  /-- A header names it; also the document itself. -/
  | header
  /-- A header names a table in it. -/
  | implied
  /-- A dotted key leads through it. -/
  | dotted
  /-- It stands between braces. -/
  | inline
deriving DecidableEq, Repr

inductive Value where
  | text (value : String)
  | flag (value : Bool)
  /-- A number or a time. -/
  | other
  | array (items : List Value)
  | table (origin : Origin) (entries : List (String × Value))
  /-- An array of tables that headers name, the last one first. -/
  | tables (rows : List (List (String × Value)))
deriving Inhabited

/-- A table that is being filled in. -/
structure Table where
  origin : Origin
  entries : List (String × Value)

/-- A statement of a document. -/
inductive Statement where
  | entry (key : Key) (value : Value)
  /-- The entries that follow belong to the table under a key. -/
  | header (key : Key)
  /-- The entries that follow belong to one more table in the array under a key. -/
  | arrayHeader (key : Key)

namespace Table

def empty : Table := ⟨.header, []⟩

def get? (t : Table) (key : String) : Option Value := t.entries.lookup key

/-- Changes the value under a key, or makes one if there is none. The change may be refused. -/
def alterEntry (change : Option Value → Option Value) (key : String) :
    List (String × Value) → Option (List (String × Value))
  | [] => do return [(key, ← change none)]
  | (k, value) :: rest => do
    if k = key then return (k, ← change (some value)) :: rest
    else return (k, value) :: (← alterEntry change key rest)

def alter (t : Table) (key : String) (change : Option Value → Option Value) : Option Table :=
  return { t with entries := ← alterEntry change key t.entries }

/-- Changes the table that a value is. A table that is missing is made. A dotted key does not lead
into a table that a header names. -/
def enter (dotted : Bool) (change : Table → Option Table) : Option Value → Option Value
  | none => do
    let t ← change ⟨if dotted then .dotted else .implied, []⟩
    return .table t.origin t.entries
  | some (.table origin entries) => do
    if origin = .inline || (dotted && origin = .header) then none
    let t ← change ⟨origin, entries⟩
    return .table t.origin t.entries
  | some (.tables (row :: rows)) => do
    let t ← change ⟨.header, row⟩
    return .tables (t.entries :: rows)
  | some _ => none

/-- Changes the table that a path leads to. -/
def alterAt (dotted : Bool) (path : Key) (change : Table → Option Table) (t : Table) :
    Option Table :=
  match path with
  | [] => change t
  | key :: rest => t.alter key (enter dotted (alterAt dotted rest change))

/-- Adds an entry. Its key must be new, and if it has several parts, the last but one must name a
table that dotted keys have made. -/
def addEntry (t : Table) (key : Key) (value : Value) : Option Table := do
  let last ← key.getLast?
  let path := key.dropLast
  t.alterAt true path fun inner =>
    if path.isEmpty = (inner.origin = .dotted) then none
    else inner.alter last fun
      | none => some value
      | some _ => none

def addHeader (t : Table) (key : Key) : Option Table := do
  let last ← key.getLast?
  t.alterAt false key.dropLast fun inner => inner.alter last fun
    | none => some (.table .header [])
    | some (.table .implied entries) => some (.table .header entries)
    | some _ => none

/-- Adds one more table to an array of tables. -/
def addRow (t : Table) (key : Key) : Option Table := do
  let last ← key.getLast?
  t.alterAt false key.dropLast fun inner => inner.alter last fun
    | none => some (.tables [[]])
    | some (.tables rows) => some (.tables ([] :: rows))
    | some _ => none

/-- Carries out a statement. The key tells where the last header has led to. -/
def apply (state : Key × Table) : Statement → Option (Key × Table)
  | .entry key value => do
    let (header, t) := state
    return (header, ← t.alterAt false header fun inner => inner.addEntry key value)
  | .header key => do return (key, ← state.2.addHeader key)
  | .arrayHeader key => do return (key, ← state.2.addRow key)

/-- The document that statements make, if none of them contradicts those before it. -/
def ofStatements? (statements : List Statement) : Option Table := do
  let (_, t) ← statements.foldlM apply ([], empty)
  return t

end Table

/-- The table that entries between braces make. -/
def Value.ofEntries? (entries : List (Key × Value)) : Option Value := do
  let t ← entries.foldlM (fun t (key, value) => t.addEntry key value) Table.empty
  return .table .inline t.entries

end TraitWeaver.Toml
