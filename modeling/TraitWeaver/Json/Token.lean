import TraitWeaver.Json.Basic
import TraitWeaver.Json.Number

/-!
# The tokens of a JSON text

Cutting a text into tokens is one pass over its characters. Where the text stops being JSON, the
token list ends with a token that says so, and a reader meets the fault only when it gets there.

A scalar whose spelling is right but whose value cannot be held (a text with half a surrogate pair,
a number out of range) is a token without a value: whether that is a fault depends on whether anyone
wants the value. For the same reason the tokens that stand for the end of the text tell what it ends
within.
-/

namespace TraitWeaver.Json

inductive Token where
  | openArray
  | closeArray
  | openObject
  | closeObject
  | comma
  | colon
  | string (value : Option String)
  | scalar (value : Option Json)
  /-- No token begins like this; nothing follows. -/
  | junk
  /-- The text ends within a string; nothing follows. What there is of a broken string cannot be the
  beginning of any value. -/
  | openString (isBroken : Bool)
  /-- The text ends within a word; nothing follows. -/
  | openWord
  /-- The text ends within a number; nothing follows. -/
  | openNumber

/-! ## Strings -/

/-- The unit is the first half of a surrogate pair. -/
def isLeadSurrogate (u : Nat) : Bool := 0xD800 ≤ u && u ≤ 0xDBFF

/-- The unit is the second half of a surrogate pair. -/
def isTrailSurrogate (u : Nat) : Bool := 0xDC00 ≤ u && u ≤ 0xDFFF

/-- Joins surrogate pairs. The units are code points, and surrogates only if they were escaped. -/
def joinSurrogates : List Nat → Option (List Char)
  | [] => some []
  | u :: rest =>
    if isLeadSurrogate u then
      match rest with
      | v :: rest =>
        if isTrailSurrogate v then
          let c := Char.ofNat (0x10000 + (u - 0xD800) * 0x400 + (v - 0xDC00))
          (joinSurrogates rest).map (c :: ·)
        else none
      | [] => none
    else if isTrailSurrogate u then none
    else (joinSurrogates rest).map (Char.ofNat u :: ·)

/-- The text that a string token stands for. -/
def unitsText (reversed : List Nat) : Option String :=
  (joinSurrogates reversed.reverse).map String.ofList

/-- The token of a string that the text ends within. The first half of a pair may be its last unit:
the second half could have followed. -/
def openStringToken (reversed : List Nat) : Token :=
  let settled := if reversed.head?.any isLeadSurrogate then reversed.tail else reversed
  .openString (unitsText settled).isNone

def hexValue? (c : Char) : Option Nat :=
  if c.isDigit then some (c.toNat - 48)
  else if 'a' ≤ c && c ≤ 'f' then some (c.toNat - 87)
  else if 'A' ≤ c && c ≤ 'F' then some (c.toNat - 55)
  else none

/-- What a character stands for after a backslash, `u` apart. -/
def unescape? (c : Char) : Option Nat :=
  match c with
  | '"' => some 0x22
  | '\\' => some 0x5C
  | '/' => some 0x2F
  | 'b' => some 0x08
  | 'f' => some 0x0C
  | 'n' => some 0x0A
  | 'r' => some 0x0D
  | 't' => some 0x09
  | _ => none

/-! ## The pass -/

/-- What the characters read so far belong to. -/
inductive ScanState where
  /-- No token has been begun. -/
  | between
  /-- A word of which these characters are still to come. -/
  | word (rest : List Char) (value : Json)
  /-- A number; its characters in reverse. -/
  | number (part : NumberPart) (literal : List Char)
  /-- A string; its units in reverse. -/
  | quoted (units : List Nat)
  /-- A string, after a backslash. -/
  | escaped (units : List Nat)
  /-- A string, in an escape with this many hexadecimal digits to come. -/
  | hex (units : List Nat) (left value : Nat)

/-- The token of a number that is complete. -/
def numberToken (reversed : List Char) : Token :=
  let literal := reversed.reverse
  let isInRange := (Magnitude.ofLiteral literal).isInRange
  .scalar (if isInRange then some (.number (String.ofList literal)) else none)

/-- Whether four bytes of text follow, which is what a hexadecimal escape needs. -/
def hasFourBytes (rest : List Char) : Bool :=
  4 ≤ (rest.take 4).foldl (fun size c => size + c.utf8Size) 0

/-- Reads a character that begins a token or stands between tokens. -/
def ScanState.begin (c : Char) : List Token × Except Token ScanState :=
  match c with
  | ' ' | '\n' | '\t' | '\r' => ([], .ok .between)
  | '[' => ([.openArray], .ok .between)
  | ']' => ([.closeArray], .ok .between)
  | '\x7b' => ([.openObject], .ok .between)
  | '\x7d' => ([.closeObject], .ok .between)
  | ',' => ([.comma], .ok .between)
  | ':' => ([.colon], .ok .between)
  | '"' => ([], .ok (.quoted []))
  | 't' => ([], .ok (.word ['r', 'u', 'e'] (.bool true)))
  | 'f' => ([], .ok (.word ['a', 'l', 's', 'e'] (.bool false)))
  | 'n' => ([], .ok (.word ['u', 'l', 'l'] .null))
  | '-' => ([], .ok (.number .minus ['-']))
  | '0' => ([], .ok (.number .zero ['0']))
  | c => ([], if c.isDigit then .ok (.number .integer [c]) else .error .junk)

/-- Reads one character, `rest` being what follows it: the tokens that are complete now, and the
state after it. -/
def ScanState.step (state : ScanState) (c : Char) (rest : List Char) :
    List Token × Except Token ScanState :=
  match state with
  | .between => ScanState.begin c
  | .word [] _ => ([], .error .junk)
  | .word [w] value =>
    if c = w then ([.scalar (some value)], .ok .between) else ([], .error .junk)
  | .word (w :: ws) value =>
    if c = w then ([], .ok (.word ws value)) else ([], .error .junk)
  | .number part literal =>
    match part.next c with
    | some part => ([], .ok (.number part (c :: literal)))
    | none =>
      if part.isFinal && !c.isDigit then
        let (tokens, state) := ScanState.begin c
        (numberToken literal :: tokens, state)
      else
        ([], .error .junk)
  | .quoted units =>
    if c = '"' then ([.string (unitsText units)], .ok .between)
    else if c = '\\' then ([], .ok (.escaped units))
    else if c.toNat < 0x20 then ([], .error .junk)
    else ([], .ok (.quoted (c.toNat :: units)))
  | .escaped units =>
    if c = 'u' then
      ([], if hasFourBytes rest then .ok (.hex units 4 0) else .error (openStringToken units))
    else
      match unescape? c with
      | some unit => ([], .ok (.quoted (unit :: units)))
      | none => ([], .error .junk)
  | .hex units left value =>
    match hexValue? c with
    | some digit =>
      let value := 16 * value + digit
      ([], .ok (if left ≤ 1 then .quoted (value :: units) else .hex units (left - 1) value))
    | none => ([], .error .junk)

/-- What the end of the text makes of the token that was begun. -/
def ScanState.finish : ScanState → List Token
  | .between => []
  | .number part literal =>
    if part.isFinal then [numberToken literal] else [.openNumber]
  | .word .. => [.openWord]
  | .quoted units | .escaped units | .hex units _ _ => [openStringToken units]

/-- Reads the rest of a text, with the tokens found so far in reverse. -/
def scanFrom (state : ScanState) (found : List Token) : List Char → List Token
  | [] => found.reverse ++ state.finish
  | c :: rest =>
    match state.step c rest with
    | (tokens, .ok state) => scanFrom state (tokens.reverse ++ found) rest
    | (tokens, .error last) => found.reverse ++ tokens ++ [last]

def tokens (s : String) : List Token := scanFrom .between [] s.toList

end TraitWeaver.Json
