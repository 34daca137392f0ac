import TraitWeaver.Text
import TraitWeaver.Text.Decimal
import TraitWeaver.Toml.Value

/-!
# Values without quotes or brackets

Which words are values: the two flags, integers that 64 bits hold, floats within the range of double
precision, and dates and times that a calendar and a clock have.
-/

namespace TraitWeaver.Toml

/-! ## Numbers -/

/-- Digits, between which there may be single bars. -/
def isDigitGroup (isDigit : Char → Bool) (cs : List Char) : Bool :=
  (Text.splitAll '_' cs).all fun piece => !piece.isEmpty && piece.all isDigit

/-- Decimal digits of which the first is zero only if it is the only one. -/
def isWhole (cs : List Char) : Bool :=
  isDigitGroup Char.isDigit cs && (cs.head? != some '0' || cs.length == 1)

/-- A text without the sign that it may begin with. -/
def unsigned (cs : List Char) : List Char :=
  match cs with
  | '+' :: rest | '-' :: rest => rest
  | _ => cs

/-- The value of a digit to a base of at most sixteen. -/
def digitValue (c : Char) : Nat :=
  if c.isDigit then c.toNat - 48
  else if 'a' ≤ c && c ≤ 'f' then c.toNat - 87
  else if 'A' ≤ c && c ≤ 'F' then c.toNat - 55
  else 16

/-- A digit to a base of at most sixteen. -/
def isDigitOf (base : Nat) (c : Char) : Bool := digitValue c < base

/-- Digits to a base whose value 63 bits hold. -/
def isBasedInteger (base : Nat) (cs : List Char) : Bool :=
  isDigitGroup (isDigitOf base) cs &&
    (cs.filter (· != '_')).foldl (fun n c => base * n + digitValue c) 0 < Nat.pow 2 63

def isInteger (cs : List Char) : Bool :=
  match cs with
  | '0' :: 'x' :: digits => isBasedInteger 16 digits
  | '0' :: 'o' :: digits => isBasedInteger 8 digits
  | '0' :: 'b' :: digits => isBasedInteger 2 digits
  | _ =>
    isWhole (unsigned cs) &&
      Text.digitsValue cs < (if cs.head? = some '-' then Nat.pow 2 63 + 1 else Nat.pow 2 63)

/-- A float as its literal: a whole part, and after it a fraction or an exponent or both. -/
def isFloatLiteral (cs : List Char) : Bool :=
  let cs := unsigned cs
  let mantissa := cs.takeWhile fun c => c != 'e' && c != 'E'
  let exponent := (cs.drop mantissa.length).drop 1
  let hasExponent := mantissa.length < cs.length
  let exponentInOrder := !hasExponent || isDigitGroup Char.isDigit (unsigned exponent)
  match Text.splitAll '.' mantissa with
  | [whole] => isWhole whole && hasExponent && exponentInOrder
  | [whole, fraction] => isWhole whole && isDigitGroup Char.isDigit fraction && exponentInOrder
  | _ => false

/-- A float. A negative one may be beyond the range of double precision. -/
def isFloat (cs : List Char) : Bool :=
  unsigned cs = ['i', 'n', 'f'] || unsigned cs = ['n', 'a', 'n'] ||
    isFloatLiteral cs && (cs.head? = some '-' || Text.fitsDouble (unsigned cs))

/-! ## Dates and times -/

/-- The value of a number of exactly so many digits. -/
def fixedNumber? (width : Nat) (cs : List Char) : Option Nat :=
  if cs.length = width && cs.all Char.isDigit then some (Text.digitsValue cs) else none

/-- A number of two digits with the property. -/
def isPair (cs : List Char) (isValid : Nat → Bool) : Bool := (fixedNumber? 2 cs).any isValid

def daysIn (year month : Nat) : Nat :=
  if month = 2 then
    if year % 4 = 0 && (year % 100 != 0 || year % 400 = 0) then 29 else 28
  else if month = 4 || month = 6 || month = 9 || month = 11 then 30
  else 31

def isDate (cs : List Char) : Bool :=
  match Text.splitAll '-' cs with
  | [year, month, day] =>
    match fixedNumber? 4 year, fixedNumber? 2 month, fixedNumber? 2 day with
    | some year, some month, some day =>
      1 ≤ month && month ≤ 12 && 1 ≤ day && day ≤ daysIn year month
    | _, _, _ => false
  | _ => false

/-- A time of the day, to the second or closer. -/
def isTime (cs : List Char) : Bool :=
  match Text.splitAll ':' cs with
  | [hour, minute, second] =>
    isPair hour (· ≤ 23) && isPair minute (· ≤ 59) &&
      match Text.splitAll '.' second with
      | [second] => isPair second (· ≤ 60)
      | [second, fraction] =>
        isPair second (· ≤ 60) && !fraction.isEmpty && fraction.all Char.isDigit
      | _ => false
  | _ => false

/-- A distance from universal time, after its sign. -/
def isOffset (cs : List Char) : Bool :=
  match Text.splitAll ':' cs with
  | [hour, minute] => isPair hour (· ≤ 23) && isPair minute (· ≤ 59)
  | _ => false

/-- A time of the day, which may say how far it is from universal time. -/
def isZonedTime (cs : List Char) : Bool :=
  let time := cs.takeWhile fun c => c.isDigit || c = ':' || c = '.'
  isTime time &&
    match cs.drop time.length with
    | [] | ['Z'] | ['z'] => true
    | '+' :: offset | '-' :: offset => isOffset offset
    | _ => false

/-- A date, a time, or a date and a time. -/
def isMoment (cs : List Char) : Bool :=
  isTime cs || isDate (cs.take 10) &&
    match cs.drop 10 with
    | [] => true
    | 'T' :: time | 't' :: time | ' ' :: time => isZonedTime time
    | _ => false

/-! ## Words -/

def Value.ofWord? (word : String) : Option Value :=
  if word = "true" then some (.flag true)
  else if word = "false" then some (.flag false)
  else
    let cs := word.toList
    if isMoment cs || isFloat cs || isInteger cs then some .other else none

end TraitWeaver.Toml
