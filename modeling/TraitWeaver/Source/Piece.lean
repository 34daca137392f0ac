import TraitWeaver.TypeRef.Basic

/-!
# Pieces of source text

Source text is planned as a list of pieces: words, which are written as they are, and names of
declared types, whose spelling depends on the file that they stand in. So the plan says which
types are written, and where, before any file is there.
-/

namespace TraitWeaver

/-- A piece of source text. -/
inductive Piece where
  | word (text : String)
  | name (name : DeclaredName)
deriving DecidableEq, Repr

abbrev Phrase := List Piece

namespace Phrase

def word (text : String) : Phrase := [.word text]

/-- Phrases one after the other, with a separator between them. -/
def separated (separator : String) : List Phrase → Phrase
  | [] => []
  | [p] => p
  | p :: ps => p ++ word separator ++ separated separator ps

/-- An opening word and separated phrases, or nothing if there are no phrases. -/
def listed (opening separator : String) (phrases : List Phrase) : Phrase :=
  if phrases.isEmpty then [] else word opening ++ separated separator phrases

def hasText (p : Phrase) : Bool :=
  p.any fun
    | .word text => text != ""
    | .name _ => true

def names (p : Phrase) : List DeclaredName :=
  p.filterMap fun
    | .word _ => none
    | .name n => some n

end Phrase

/-! ## Types in source text -/

namespace TypeRef

/-- Arguments between angle brackets, or nothing if there are none. -/
def argumentPhrase (args : List Phrase) : Phrase :=
  if args.isEmpty then [] else Phrase.word "<" ++ Phrase.separated ", " args ++ Phrase.word ">"

mutual

/-- A use of a type. A wildcard has at most one bound, its upper one before its lower one; any other
variable stands without its bounds. -/
def phrase : TypeRef → Phrase
  | .declared name args dims =>
    [.name name] ++ argumentPhrase (phrases args) ++ Phrase.word dims.text
  | .param var upper lower dims =>
    (if var.isWildcard then Phrase.word "?" ++ wildcardBound (phrases upper) (lowerPhrase lower)
      else Phrase.word var.sourceName) ++ Phrase.word dims.text

def phrases : List TypeRef → List Phrase
  | [] => []
  | t :: ts => phrase t :: phrases ts

def lowerPhrase : Option TypeRef → Option Phrase
  | none => none
  | some t => some (phrase t)

/-- The bound that is written after a wildcard. -/
def wildcardBound (upper : List Phrase) (lower : Option Phrase) : Phrase :=
  match upper, lower with
  | bound :: _, _ => Phrase.word " extends " ++ bound
  | [], some bound => Phrase.word " super " ++ bound
  | [], none => []

end

theorem phrases_eq_map (ts : List TypeRef) : phrases ts = ts.map phrase := by
  induction ts with
  | nil => rfl
  | cons t ts ih => rw [phrases, ih, List.map_cons]

end TypeRef

namespace TypeParam

/-- The parameter in the list that declares it, with its upper bounds. Bounds that refer to the root
of the hierarchy are left out. -/
def declarationPhrase (p : TypeParam) : Phrase :=
  let bounds := (p.upper.filter (!·.refersToRoot)).map (·.phrase)
  Phrase.word p.sourceName ++ Phrase.listed " extends " " & " bounds

/-- The list that declares parameters, or nothing if there are none. -/
def listPhrase (params : List TypeParam) : Phrase :=
  if params.isEmpty then []
  else Phrase.word "<" ++ Phrase.separated ", " (params.map declarationPhrase) ++ Phrase.word ">"

end TypeParam

end TraitWeaver
