import TraitWeaver.Text.Decimal

/-!
# JSON numbers

How a number is spelled, character by character, and which numbers have a value. A number is read as
a significand of at most 64 bits, times a power of ten; the digits that the significand has no room
for are dropped. It has a value unless the nearest double of the significand, times the nearest
double of the power, is beyond the range of double precision. So a number can be refused that is
itself just within that range, and one be taken that is just beyond it.
-/

namespace TraitWeaver.Json

/-! ## Spelling -/

/-- Where in the spelling of a number a character stands. -/
inductive NumberPart where
  | minus
  | zero
  | integer
  | point
  | fraction
  | mark
  | sign
  | exponent
deriving DecidableEq, Repr

namespace NumberPart

/-- The part that a further character of the number belongs to. -/
def next (part : NumberPart) (c : Char) : Option NumberPart :=
  match part with
  | minus => if c = '0' then some zero else if c.isDigit then some integer else none
  | zero => if c = '.' then some point else if c = 'e' || c = 'E' then some mark else none
  | integer =>
    if c.isDigit then some integer else if c = '.' then some point
    else if c = 'e' || c = 'E' then some mark else none
  | point => if c.isDigit then some fraction else none
  | fraction => if c.isDigit then some fraction else if c = 'e' || c = 'E' then some mark else none
  | mark =>
    if c.isDigit then some exponent else if c = '+' || c = '-' then some sign else none
  | sign => if c.isDigit then some exponent else none
  | exponent => if c.isDigit then some exponent else none

def isFinal : NumberPart → Bool
  | zero | integer | fraction | exponent => true
  | minus | point | mark | sign => false

end NumberPart

/-! ## Magnitude -/

/-- The greatest significand: 64 bits, all set. -/
def significandLimit : Nat := Nat.pow 2 64 - 1

/-- Appends digits to a significand, up to the first that it has no room for. The second part of the
answer is how many digits are left. -/
def appendDigits (significand : Nat) : List Char → Nat × Nat
  | [] => (significand, 0)
  | c :: rest =>
    let longer := Text.digitsValueFrom significand [c]
    if longer ≤ significandLimit then appendDigits longer rest
    else (significand, rest.length + 1)

/-- The magnitude of a number: a significand, times a power of ten. -/
structure Magnitude where
  significand : Nat
  exponent : Int
deriving DecidableEq, Repr

namespace Magnitude

/-- The magnitude of a number, as far as its significand has room for its digits. The integer digits
that are dropped count as powers of ten, and the digits of the fraction are then tried anew. -/
def ofLiteral (literal : List Char) : Magnitude :=
  let number := Text.DecimalLiteral.ofChars literal
  let (whole, dropped) := appendDigits 0 number.integer
  let (significand, ignored) := appendDigits whole number.fraction
  ⟨significand, number.exponent + dropped - (number.fraction.length - ignored : Nat)⟩

/-- The magnitude is within the range of double precision, with both of its parts rounded first. -/
def isInRange (m : Magnitude) : Bool :=
  m.significand = 0 || m.exponent < 0 ||
    m.exponent ≤ 308 &&
      Text.nearestDouble m.significand * Text.nearestDouble (Nat.pow 10 m.exponent.toNat)
        < Text.doubleLimit

end Magnitude

end TraitWeaver.Json
