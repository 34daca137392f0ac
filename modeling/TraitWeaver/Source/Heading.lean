import TraitWeaver.Source.Expr
import TraitWeaver.Signature

/-!
# Headings of types, fields and methods

What is declared in a generated file, as far as it is written on the line that opens it.
-/

namespace TraitWeaver

/-- A word before a declaration. -/
inductive Keyword where
  | «public»
  | «protected»
  | «private»
  | abstract
  | static
  | final
deriving DecidableEq, Repr

namespace Keyword

def text : Keyword → String
  | «public» => "public"
  | «protected» => "protected"
  | «private» => "private"
  | abstract => "abstract"
  | static => "static"
  | final => "final"

/-- Keywords in the order given, each with a blank after it. -/
def phrase (keywords : List Keyword) : Phrase := keywords.map fun k => .word (k.text ++ " ")

end Keyword

/-! ## Types -/

/-- A type is declared as a class or as an interface. -/
inductive TypeKind where
  | classType
  | interfaceType
deriving DecidableEq, Repr

/-- The heading of a class or interface. What an interface extends are its interfaces; its
superclass is not looked at. -/
structure TypeHeading where
  kind : TypeKind
  keywords : List Keyword
  name : String
  typeParams : List TypeParam
  superclass : Option TypeRef
  interfaces : List TypeRef

namespace TypeHeading

def ofClass (name : String) : TypeHeading := ⟨.classType, [.public], name, [], none, []⟩

def ofInterface (name : String) : TypeHeading := ⟨.interfaceType, [.public], name, [], none, []⟩

/-- The line that opens the type, up to its brace. -/
def phrase (h : TypeHeading) : Phrase :=
  let types (opening : String) : Phrase :=
    Phrase.listed opening ", " (h.interfaces.map (·.phrase))
  let (word, supertypes) := match h.kind with
    | .classType =>
      ("class ", (h.superclass.map fun t => Phrase.word " extends " ++ t.phrase).getD [] ++
        types " implements ")
    | .interfaceType => ("interface ", types " extends ")
  Keyword.phrase h.keywords ++ Phrase.word word ++ Phrase.word h.name ++
    TypeParam.listPhrase h.typeParams ++ supertypes

/-- The types that a file has to know about to write the heading. -/
def mentions (h : TypeHeading) : List DeclaredName :=
  h.typeParams.flatMap (·.mentions) ++
    (h.superclass.toList ++ h.interfaces).flatMap (·.mentions)

end TypeHeading

/-! ## Fields -/

/-- A field with its initial value. -/
structure Field where
  keywords : List Keyword
  type : TypeRef
  name : String
  value : Option Expr

namespace Field

/-- The field as it is declared, up to its semicolon. -/
def phrase (f : Field) : Phrase :=
  Keyword.phrase f.keywords ++ f.type.phrase ++ Phrase.word s!" {f.name}" ++
    (f.value.map fun e => Phrase.word " = " ++ e.phrase).getD []

/-- The types that a file has to know about to write the field. -/
def mentions (f : Field) : List DeclaredName :=
  f.type.mentions ++ Expr.mentionsOfOption f.value

end Field

/-! ## Methods -/

/-- The heading of a method; of a constructor if it returns nothing at all. -/
structure MethodHeading where
  annotations : List DeclaredType
  keywords : List Keyword
  typeParams : List TypeParam
  returns : Option TypeRef
  name : String
  params : List Parameter
  throws : List TypeRef

namespace MethodHeading

/-- A method without anything but its return type and name. -/
def ofMethod (returns : TypeRef) (name : String) : MethodHeading :=
  ⟨[], [], [], some returns, name, [], []⟩

def ofConstructor (name : String) : MethodHeading := ⟨[], [], [], none, name, [], []⟩

def isConstructor (h : MethodHeading) : Bool := h.returns.isNone

/-- The parameters as arguments of a call. -/
def forwarded (h : MethodHeading) : List Expr := h.params.map fun p => .var p.name

/-- Each annotation on a line of its own; arguments of an annotation's type are not written. -/
def annotationPhrases (h : MethodHeading) : List Phrase :=
  h.annotations.map fun a => Phrase.word "@" ++ [.name a.name]

/-- The line that opens the method, up to its brace or semicolon. -/
def phrase (h : MethodHeading) : Phrase :=
  let params := h.params.map fun p => p.type.phrase ++ Phrase.word s!" {p.name}"
  Keyword.phrase h.keywords ++
    (if h.typeParams.isEmpty then [] else TypeParam.listPhrase h.typeParams ++ Phrase.word " ") ++
    (h.returns.map fun t => t.phrase ++ Phrase.word " ").getD [] ++
    Phrase.word h.name ++ Expr.argumentPhrase params ++
    Phrase.listed " throws " ", " (h.throws.map (·.phrase))

/-- The types that a file has to know about to write the heading. -/
def mentions (h : MethodHeading) : List DeclaredName :=
  h.annotations.flatMap (·.mentions) ++ h.typeParams.flatMap (·.mentions) ++
    (h.returns.toList ++ h.params.map (·.type) ++ h.throws).flatMap (·.mentions)

end MethodHeading

end TraitWeaver
