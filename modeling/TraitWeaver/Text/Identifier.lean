import TraitWeaver.Text.Alphabetic
import TraitWeaver.Text.Numeric

/-!
# Identifiers

Which texts can be an identifier of generated source, and which can be the later part of one.
-/

namespace TraitWeaver.Text

/-- A character that may begin an identifier. -/
def isIdentifierStart (c : Char) : Bool := isAlphabetic c || c = '_' || c = '$'

/-- A character that may stand in an identifier. -/
def isIdentifierPart (c : Char) : Bool := isAlphabetic c || isNumeric c || c = '_' || c = '$'

/-- One or more characters that may stand in an identifier. -/
def isIdentifierTail (s : String) : Bool := !s.toList.isEmpty && s.toList.all isIdentifierPart

/-- A text that may be an identifier; words with a meaning of their own are not looked at. -/
def isIdentifier (s : String) : Bool :=
  match s.toList with
  | [] => false
  | c :: rest => isIdentifierStart c && rest.all isIdentifierPart

end TraitWeaver.Text
