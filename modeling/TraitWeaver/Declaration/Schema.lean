import TraitWeaver.Declaration.Json
import TraitWeaver.Json.Reader

/-!
# Declarations from texts

The schemas of declarations, and reading them from JSON texts. Types, members and superclass
arguments are taken whole, because their kind may come last.
-/

namespace TraitWeaver

namespace Json.Schema

def sourceType : Schema :=
  .kinded SourceType.kinds fun j => (SourceType.ofJson? false j).isSome

def member : Schema := .kinded MemberDecl.kinds fun j => (MemberDecl.ofJson? j).isSome

def argument : Schema := .kinded ArgumentDecl.kinds fun j => (ArgumentDecl.ofJson? j).isSome

def typeParam : Schema := .record ["name"] [("name", .text), ("bounds", .list sourceType)]

def parameter : Schema := .record ["type"] [("name", .text), ("type", sourceType)]

def method : Schema := .record ["name", "return_type"] [
  ("name", .text), ("modifiers", .list (.choice (Modifier.all.map (·.word)))),
  ("type_parameters", .list typeParam), ("return_type", sourceType),
  ("parameters", .list parameter), ("varargs", .flag), ("throws", .list sourceType),
  ("self_accessor", .flag)]

def interface : Schema := .record ["name"] [
  ("name", .text), ("type_parameters", .list .text), ("arguments", .list sourceType),
  ("methods", .list method)]

def traitDecl : Schema := .record ["name"] [
  ("name", .text), ("type_parameters", .list typeParam), ("superclass", .optional sourceType),
  ("interfaces", .list interface), ("members", .list member)]

def superclass : Schema := .record ["name"] [
  ("name", .text), ("type_parameters", .list typeParam), ("arguments", .list argument)]

def preference : Schema := .record ["method", "trait"] [("method", .text), ("trait", .text)]

def hostDecl : Schema := .record ["name", "traits"] [
  ("name", .text), ("traits", .list .text), ("superclass", .optional superclass),
  ("preferences", .list preference)]

def declarations : Schema := .record [] [("traits", .list traitDecl), ("hosts", .list hostDecl)]

end Json.Schema

def readText {α : Type} (schema : Json.Schema) (ofJson? : Json → Option α) (text : String) :
    Except Json.Fault α := do
  match ofJson? (← Json.read schema text) with
  | some a => return a
  | none => throw .wrongForm

/-- Reads the declarations of a round from a text. -/
def Declarations.ofText (text : String) : Except Json.Fault Declarations :=
  readText .declarations Declarations.ofJson? text

end TraitWeaver
