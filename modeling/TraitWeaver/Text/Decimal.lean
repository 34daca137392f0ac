/-!
# Decimal literals

What a literal of decimal digits is worth, which natural numbers double precision can hold, and
whether a literal with a fraction and an exponent is within its range. A literal is passed as its
characters; signs before it and marks between its digits are passed over.
-/

namespace TraitWeaver.Text

/-! ## Digits -/

/-- A number with a run of decimal digits appended; other characters are passed over. -/
def digitsValueFrom (n : Nat) (cs : List Char) : Nat :=
  cs.foldl (fun n c => if c.isDigit then 10 * n + (c.toNat - 48) else n) n

/-- The value of a run of decimal digits; other characters are passed over. -/
def digitsValue (cs : List Char) : Nat := digitsValueFrom 0 cs

/-- The parts of a literal: the digits before and behind its point, and what its exponent is
worth. -/
structure DecimalLiteral where
  integer : List Char
  fraction : List Char
  exponent : Int
deriving DecidableEq, Repr

/-- The parts of a literal that is spelled with these characters. -/
def DecimalLiteral.ofChars (literal : List Char) : DecimalLiteral :=
  let mantissa := literal.takeWhile fun c => c != 'e' && c != 'E'
  let exponentText := literal.drop (mantissa.length + 1)
  let magnitude := digitsValue exponentText
  { integer := (mantissa.takeWhile (· != '.')).filter (·.isDigit)
    fraction := (mantissa.dropWhile (· != '.')).filter (·.isDigit)
    exponent := if exponentText.head? = some '-' then -(magnitude : Int) else magnitude }

/-! ## Double precision -/

/-- The least magnitude that rounds to infinity in double precision. -/
def doubleLimit : Nat := Nat.pow 2 1024 - Nat.pow 2 970

/-- The nearest natural number that 53 bits and a power of two can hold. Of two that are equally
near it is the one with an even last bit. -/
def nearestDouble (n : Nat) : Nat :=
  let unit := Nat.pow 2 (n.log2 - 52)
  let below := n / unit
  let rest := 2 * (n % unit)
  if rest < unit || (rest = unit && below % 2 = 0) then below * unit else (below + 1) * unit

/-- The magnitude that a literal spells is within the range of double precision. -/
def fitsDouble (literal : List Char) : Bool :=
  let number := DecimalLiteral.ofChars literal
  let digits := digitsValue (number.integer ++ number.fraction)
  let shift := number.exponent - number.fraction.length
  let magnitude := (Nat.toDigits 10 digits).length + shift
  if digits = 0 || magnitude ≤ 308 then true
  else if 310 < magnitude then false
  else digits * Nat.pow 10 shift.toNat < doubleLimit * Nat.pow 10 (-shift).toNat

end TraitWeaver.Text
