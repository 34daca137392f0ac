import TraitWeaver.Source.NameTable
import TraitWeaver.TypeRef.Occurrences

/-!
# Expressions

The expressions and statements that generated methods are made of, with the phrases that they are
written as and the types that they mention.
-/

namespace TraitWeaver

mutual

/-- An expression, or a statement without its semicolon. -/
inductive Expr where
  /-- Source text as it is. -/
  | literal (text : String)
  | this
  /-- A field or variable. -/
  | reference (receiver : Receiver) (name : String)
  | assign (target value : Expr)
  | cast (type : TypeRef) (operand : Expr)
  /-- A constructor call. With the diamond, type arguments are left to inference. -/
  | construct (type : TypeRef) (args : List Expr) (diamond : Bool)
  | call (receiver : Receiver) (name : String) (args : List Expr)
  /-- An array with the given sizes, or without sizes one with the given items. -/
  | newArray (element : TypeRef) (sizes items : List Expr)
  | element (array index : Expr)
  /-- A return statement. -/
  | result (value : Option Expr)

/-- What a member is looked up in. -/
inductive Receiver where
  | none
  | this
  | super
  /-- A type, for a static member. -/
  | static (type : TypeRef)
  | expr (expr : Expr)

end

namespace Expr

def var (name : String) : Expr := .reference .none name

def ownField (name : String) : Expr := .reference .this name

def fieldOf (object : Expr) (name : String) : Expr := .reference (.expr object) name

def callOn (object : Expr) (name : String) (args : List Expr) : Expr :=
  .call (.expr object) name args

/-- A constructor call that leaves type arguments to inference if the type has any. -/
def constructInferred (type : TypeRef) (args : List Expr) : Expr :=
  .construct type args (type.declared?.any (!·.args.isEmpty))

def isCast : Expr → Bool
  | .cast .. => true
  | _ => false

/-! ## Phrases -/

/-- A type as the head of a constructor call with the diamond. -/
def diamondPhrase (type : TypeRef) (diamond : Bool) : Phrase :=
  match type.declaredName?, diamond with
  | some name, true => [.name name] ++ Phrase.word "<>"
  | _, _ => type.phrase

/-- A type as the receiver of a static member: a declared type stands without its arguments. -/
def staticPhrase (type : TypeRef) : Phrase :=
  match type.declaredName? with
  | some name => [.name name]
  | none => type.phrase

def argumentPhrase (args : List Phrase) : Phrase :=
  Phrase.word "(" ++ Phrase.separated ", " args ++ Phrase.word ")"

/-- What follows the element type of a new array. -/
def arrayPhrase (sizes items : List Phrase) : Phrase :=
  if sizes.isEmpty then
    if items.isEmpty then Phrase.word "[] \x7b\x7d"
    else Phrase.word "[] \x7b " ++ Phrase.separated ", " items ++ Phrase.word " \x7d"
  else
    sizes.flatMap fun size => Phrase.word "[" ++ size ++ Phrase.word "]"

end Expr

mutual

/-- The phrase that an expression is written as. -/
def Expr.phrase : Expr → Phrase
  | .literal text => Phrase.word text
  | .this => Phrase.word "this"
  | .reference receiver name => receiver.phrase ++ Phrase.word name
  | .assign target value => target.phrase ++ Phrase.word " = " ++ value.phrase
  | .cast type operand => Phrase.word "(" ++ type.phrase ++ Phrase.word ") " ++ operand.phrase
  | .construct type args diamond =>
    Phrase.word "new " ++ Expr.diamondPhrase type diamond ++
      Expr.argumentPhrase (Expr.phrases args)
  | .call receiver name args =>
    receiver.phrase ++ Phrase.word name ++ Expr.argumentPhrase (Expr.phrases args)
  | .newArray element sizes items =>
    Phrase.word "new " ++ element.phrase ++
      Expr.arrayPhrase (Expr.phrases sizes) (Expr.phrases items)
  | .element array index => array.phrase ++ Phrase.word "[" ++ index.phrase ++ Phrase.word "]"
  | .result value => Phrase.word "return" ++ Expr.resultPhrase value

def Expr.phrases : List Expr → List Phrase
  | [] => []
  | e :: es => e.phrase :: Expr.phrases es

def Expr.resultPhrase : Option Expr → Phrase
  | none => []
  | some e => Phrase.word " " ++ e.phrase

/-- A receiver with the dot after it. A cast is put between parentheses; an expression without any
text has no dot. -/
def Receiver.phrase : Receiver → Phrase
  | .none => []
  | .this => Phrase.word "this."
  | .super => Phrase.word "super."
  | .static type => Expr.staticPhrase type ++ Phrase.word "."
  | .expr e =>
    if e.isCast then Phrase.word "(" ++ e.phrase ++ Phrase.word ")."
    else if e.phrase.hasText then e.phrase ++ Phrase.word "."
    else e.phrase

end

/-- How an expression is spelled in a file. -/
def Expr.text (e : Expr) (names : NameTable) : String := names.spell e.phrase

theorem Expr.phrases_eq_map (es : List Expr) : Expr.phrases es = es.map Expr.phrase := by
  induction es with
  | nil => rfl
  | cons e es ih => rw [Expr.phrases, ih, List.map_cons]

/-! ## Mentions -/

mutual

/-- The types that a file has to know about to write an expression. -/
def Expr.mentions : Expr → List DeclaredName
  | .literal _ | .this => []
  | .reference receiver _ => receiver.mentions
  | .assign target value => target.mentions ++ value.mentions
  | .cast type operand => type.mentions ++ operand.mentions
  | .construct type args _ => type.mentions ++ Expr.mentionsOfAll args
  | .call receiver _ args => receiver.mentions ++ Expr.mentionsOfAll args
  | .newArray element sizes items =>
    element.mentions ++ Expr.mentionsOfAll sizes ++ Expr.mentionsOfAll items
  | .element array index => array.mentions ++ index.mentions
  | .result value => Expr.mentionsOfOption value

/-- The types mentioned in several expressions. -/
def Expr.mentionsOfAll : List Expr → List DeclaredName
  | [] => []
  | e :: es => e.mentions ++ Expr.mentionsOfAll es

/-- The types mentioned in an optional expression. -/
def Expr.mentionsOfOption : Option Expr → List DeclaredName
  | none => []
  | some e => e.mentions

def Receiver.mentions : Receiver → List DeclaredName
  | .none | .this | .super => []
  | .static type => type.mentions
  | .expr e => e.mentions

end

end TraitWeaver
