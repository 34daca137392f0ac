import TraitWeaver.Source.Heading

/-!
# Writing a file

A writer takes the parts of one file in order and lays them out. It knows which scopes are open, and
refuses a part that has no place there before it does anything.

* `Op` is a request to the writer, and `Op.perform` what the writer does about it.
* A written line knows the depth of the scope it stands in; its indentation follows from that.
* Members of a type are kept apart by a blank line, except that fields stand together.
-/

namespace TraitWeaver

/-- A part of the file that is open. -/
inductive Scope where
  | package
  | imports
  | type
  | method
deriving DecidableEq, Repr

namespace Scope

def text : Scope → String
  | package => "package"
  | imports => "imports"
  | type => "type definition"
  | method => "method definition"

/-- What stands in the scope is indented, and the scope has to be closed. -/
def isBody : Scope → Bool
  | package | imports => false
  | type | method => true

end Scope

/-- Why the writer refuses an operation. -/
inductive WriterError where
  /-- The operation has no place in the scope that is open. -/
  | illegalScope (operation expected : String) (found : Option Scope)
  /-- The file is not finished while bodies are open. -/
  | unclosed (count : Nat)
deriving DecidableEq, Repr

def WriterError.message : WriterError → String
  | illegalScope operation expected found =>
    let scope := (found.map (·.text)).getD "no"
    s!"`{operation}` is not allowed in {scope} scope (expected {expected})"
  | unclosed count => s!"cannot finish file with {count} unclosed scope(s)"

/-! ## Lines -/

/-- A line of a file. -/
inductive Line where
  | blank
  /-- Text under an indentation of four blanks for each open body. -/
  | code (depth : Nat) (text : String)
deriving DecidableEq, Repr

namespace Line

def text : Line → String
  | blank => "\n"
  | code depth text => "".pushn ' ' (4 * depth) ++ text ++ "\n"

def textOf (lines : List Line) : String := String.join (lines.map text)

end Line

/-- What kind of member was written last in the body that is open. -/
inductive MemberKind where
  | field
  | block
deriving DecidableEq, Repr

/-- A file that is being written. -/
structure Writer where
  lines : Array Line
  /-- The open scopes, the innermost one first. -/
  scopes : List Scope
  /-- The kinds of the types that are open, the innermost one first. -/
  kinds : List TypeKind
  names : NameTable
  previous : Option MemberKind

/-- Work on a writer. It may fail, and what it has done to the writer until then stays done. -/
abbrev WriterM : Type → Type := EStateM WriterError Writer

namespace Writer

/-- A writer that has written nothing. -/
def new : Writer := ⟨#[], [], [], .empty "", none⟩

def scope (w : Writer) : Option Scope := w.scopes.head?

def depth (w : Writer) : Nat := w.scopes.countP (·.isBody)

def text (w : Writer) : String := Line.textOf w.lines.toList

def put (w : Writer) (line : Line) : Writer := { w with lines := w.lines.push line }

/-- Writes a line at the depth of the innermost scope. -/
def putCode (w : Writer) (text : String) : Writer := w.put (.code w.depth text)

/-- Writes a phrase and what closes it on one line. -/
def putPhrase (w : Writer) (p : Phrase) : Writer := w.putCode (w.names.spell p)

/-- Keeps the next member apart from the one before it. -/
def keepApart (w : Writer) (next : MemberKind) : Writer :=
  match w.previous, next with
  | none, _ | some .field, .field => w
  | _, _ => w.put .blank

def enter (w : Writer) (scope : Scope) : Writer := { w with scopes := scope :: w.scopes }

/-- Closes the innermost scope, which is a body. -/
def leave (w : Writer) : Writer :=
  let w := { w with scopes := w.scopes.tail }
  { w.putCode "\x7d" with previous := some .block }

/-- Writes the annotations and the heading of a method. -/
def putMethod (w : Writer) (h : MethodHeading) (terminator : String) : Writer :=
  (h.annotationPhrases.foldl putPhrase (w.keepApart .block)).putPhrase
    (h.phrase ++ Phrase.word terminator)

/-! ## Operations -/

/-- Refuses an operation that has no place in the writer as it is. -/
def require (admits : Writer → Bool) (operation expected : String) : WriterM Unit := do
  let w ← get
  unless admits w do throw (.illegalScope operation expected w.scope)

/-- Opens the file with its package; the default package is not written. -/
def package (name : String) : WriterM Unit := do
  require (·.scopes.isEmpty) "package" "no scope"
  unless name = "" do
    modify (·.put (.code 0 s!"package {name};"))
    modify (·.put .blank)
  modify fun w => { w with names := .empty name }
  modify (·.enter .package)

/-- Makes the types known that the file mentions, and writes the imports. -/
def imports (types : List DeclaredName) : WriterM Unit := do
  require (·.scope = some .package) "imports" "package"
  modify fun w => { w with names := w.names.addAll types }
  let imports := (← get).names.imports
  modify fun w => imports.foldl (fun w n => w.put (.code 0 s!"import {n.qualified};")) w
  unless imports.isEmpty do
    modify (·.put .blank)
  modify (·.enter .imports)

def openType (h : TypeHeading) : WriterM Unit := do
  require (fun w => w.scope = some .imports || w.scope = some .type)
    "begin_type" "imports or type definition"
  modify (·.keepApart .block)
  modify (·.putPhrase (h.phrase ++ Phrase.word " \x7b"))
  modify (·.enter .type)
  modify fun w => { w with kinds := h.kind :: w.kinds, previous := none }

def closeType : WriterM Unit := do
  require (·.scope = some .type) "end_type" "type definition"
  modify fun w => { w with kinds := w.kinds.tail }
  modify (·.leave)

def field (f : Field) : WriterM Unit := do
  require (·.scope = some .type) "field" "type definition"
  modify (·.keepApart .field)
  modify (·.putPhrase (f.phrase ++ Phrase.word ";"))
  modify fun w => { w with previous := some .field }

def declareMethod (h : MethodHeading) : WriterM Unit := do
  require (fun w => w.scope = some .type && !h.isConstructor) "abstract_method" "type definition"
  modify (·.putMethod h ";")
  modify fun w => { w with previous := some .block }

/-- Opens the body of a method. In an interface only static methods have one. -/
def openMethod (h : MethodHeading) : WriterM Unit := do
  let inInterface (w : Writer) : Bool := w.kinds.head? = some .interfaceType
  require (fun w => w.scope = some .type && (!inInterface w || h.keywords.contains .static))
    "begin_method" "class type definition"
  modify (·.putMethod h " \x7b")
  modify (·.enter .method)

def openConstructor (h : MethodHeading) : WriterM Unit := do
  require (fun w => h.isConstructor && w.kinds.head? = some .classType)
    "begin_constructor" "class type definition"
  openMethod h

def statement (e : Expr) : WriterM Unit := do
  require (·.scope = some .method) "statement" "method definition"
  modify (·.putPhrase (e.phrase ++ Phrase.word ";"))

def closeMethod : WriterM Unit := do
  require (·.scope = some .method) "end_method" "method definition"
  modify (·.leave)

/-- Writes a comment, which has a place everywhere. -/
def comment (text : String) : WriterM Unit :=
  modify fun w => (Text.lines text).foldl
    (fun w line => w.putCode (if line = "" then "//" else s!"// {line}")) w

def blankLine : WriterM Unit := modify (·.put .blank)

def finish (w : Writer) : Except WriterError String :=
  if w.depth = 0 then .ok w.text else .error (.unclosed w.depth)

/-- A request to a writer. -/
inductive Op where
  | package (name : String)
  | imports (types : List DeclaredName)
  | openType (heading : TypeHeading)
  | closeType
  | field (field : Field)
  | declareMethod (heading : MethodHeading)
  | openMethod (heading : MethodHeading)
  | openConstructor (heading : MethodHeading)
  | statement (expr : Expr)
  | closeMethod
  | comment (text : String)
  | blankLine

/-- What the writer does about a request. -/
def Op.perform : Op → WriterM Unit
  | package name => Writer.package name
  | imports types => Writer.imports types
  | openType h => Writer.openType h
  | closeType => Writer.closeType
  | field f => Writer.field f
  | declareMethod h => Writer.declareMethod h
  | openMethod h => Writer.openMethod h
  | openConstructor h => Writer.openConstructor h
  | statement e => Writer.statement e
  | closeMethod => Writer.closeMethod
  | comment text => Writer.comment text
  | blankLine => Writer.blankLine

/-- The writer after an operation, whatever became of it, and whether it was refused. -/
def step (w : Writer) (op : Op) : Writer × Except WriterError Unit :=
  match op.perform.run w with
  | .ok () w' => (w', .ok ())
  | .error e w' => (w', .error e)

/-- The writer after an operation that it accepts. -/
def apply (w : Writer) (op : Op) : Except WriterError Writer :=
  match w.step op with
  | (w', .ok ()) => .ok w'
  | (_, .error e) => .error e

/-- The writer after a series of operations, all of which it accepts. -/
def applyAll (w : Writer) (ops : List Op) : Except WriterError Writer := ops.foldlM apply w

end Writer

end TraitWeaver
