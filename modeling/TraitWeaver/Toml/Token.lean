/-!
# The tokens of a TOML text

Cutting a text into tokens is one pass over its characters. Blanks and comments are left out; since
a header of an array of tables is written with double brackets, a bracket tells whether it stands
right after another one of its kind.

The characters that keys without quotes, numbers and times are written with make one word, dots
included: what a word is depends on where it stands. A date with a time after one blank is one word
too.
-/

namespace TraitWeaver.Toml

inductive Token where
  | word (text : String)
  /-- A text in single or double quotes, or in three of them, which make it a long text. -/
  | text (value : String) (isLong : Bool)
  | equals
  | comma
  | openBracket (isSecond : Bool)
  | closeBracket (isSecond : Bool)
  | openBrace
  | closeBrace
  | newline
  /-- No token begins or goes on like this; nothing follows. -/
  | junk
deriving DecidableEq, Repr

/-- The quotes around a text. -/
structure Quotes where
  mark : Char
  isLong : Bool

/-- What the characters read so far belong to. Characters of a token stand in reverse. -/
inductive ScanState where
  /-- No token has been begun. A bracket that has just been read is remembered. -/
  | between (bracket : Option Char)
  | word (chars : List Char)
  /-- A word that is a date, and one blank after it. -/
  | date (chars : List Char)
  | comment
  /-- A carriage return, after which a line feed must follow. -/
  | lineEnd (tokens : List Token) (next : ScanState)
  /-- One or two quotes at the beginning of a text. -/
  | opening (mark : Char) (isSecond : Bool)
  /-- Three quotes, after which a first line end does not count. -/
  | opened (mark : Char)
  | quoted (quotes : Quotes) (chars : List Char)
  /-- A long text, and so many quotes after it. -/
  | closing (mark : Char) (chars : List Char) (count : Nat)
  /-- A text, after a backslash. -/
  | escaped (quotes : Quotes) (chars : List Char)
  /-- A text, in an escape with so many hexadecimal digits to come. -/
  | hex (quotes : Quotes) (chars : List Char) (left value : Nat)
  /-- A long text, after a backslash that joins its line with the next one. -/
  | joining (quotes : Quotes) (chars : List Char) (hasLineEnd : Bool)

def isWordChar (c : Char) : Bool :=
  c.isAlphanum || c = '_' || c = '-' || c = '+' || c = '.' || c = ':'

/-- A character that may stand in a text or a comment as it is, line ends apart. -/
def isPlainChar (c : Char) : Bool := c = '\t' || (0x20 ≤ c.toNat && c.toNat != 0x7F)

def looksLikeDate (cs : List Char) : Bool :=
  cs.length = 10 && cs[4]? = some '-' && cs[7]? = some '-' &&
    (cs.filter (· != '-')).length = 8 && (cs.filter (· != '-')).all Char.isDigit

def hexDigit? (c : Char) : Option Nat :=
  if c.isDigit then some (c.toNat - 48)
  else if 'a' ≤ c && c ≤ 'f' then some (c.toNat - 87)
  else if 'A' ≤ c && c ≤ 'F' then some (c.toNat - 55)
  else none

/-- The character that has a number, which surrogates and too large numbers are not. -/
def charOf? (n : Nat) : Option Char := if n.isValidChar then some (Char.ofNat n) else none

/-- What one of the short escapes stands for. -/
def shortEscape? (c : Char) : Option Char :=
  match c with
  | 'b' => some '\x08'
  | 't' => some '\t'
  | 'n' => some '\n'
  | 'f' => some '\x0c'
  | 'r' => some '\r'
  | '"' => some '"'
  | '\\' => some '\\'
  | _ => none

def wordToken (reversed : List Char) : Token := .word (String.ofList reversed.reverse)

def textToken (isLong : Bool) (reversed : List Char) : Token :=
  .text (String.ofList reversed.reverse) isLong

/-- The tokens that a character completes, and the state after it; no state if the text is junk from
there on. -/
abbrev ScanStep : Type := List Token × Option ScanState

namespace ScanState

/-- Reads a character that begins a token or stands between tokens. -/
def begin (bracket : Option Char) (c : Char) : ScanStep :=
  match c with
  | ' ' | '\t' => ([], some (between none))
  | '\n' => ([.newline], some (between none))
  | '\r' => ([], some (lineEnd [.newline] (between none)))
  | '#' => ([], some comment)
  | '=' => ([.equals], some (between none))
  | ',' => ([.comma], some (between none))
  | '[' => ([.openBracket (bracket = some c)], some (between (some c)))
  | ']' => ([.closeBracket (bracket = some c)], some (between (some c)))
  | '\x7b' => ([.openBrace], some (between none))
  | '\x7d' => ([.closeBrace], some (between none))
  | '"' | '\'' => ([], some (opening c false))
  | _ => ([], if isWordChar c then some (word [c]) else none)

/-- Reads a character after one or more tokens that are complete. -/
def beginAfter (tokens : List Token) (c : Char) : ScanStep :=
  let (more, state) := begin none c
  (tokens ++ more, state)

def stepQuoted (quotes : Quotes) (chars : List Char) (c : Char) : ScanStep :=
  if c = quotes.mark then
    if quotes.isLong then ([], some (closing quotes.mark chars 1))
    else ([textToken false chars], some (between none))
  else if c = '\\' && quotes.mark = '"' then ([], some (escaped quotes chars))
  else if c = '\n' && quotes.isLong then ([], some (quoted quotes (c :: chars)))
  else if c = '\r' && quotes.isLong then ([], some (lineEnd [] (quoted quotes ('\n' :: chars))))
  else ([], if isPlainChar c then some (quoted quotes (c :: chars)) else none)

def stepEscaped (quotes : Quotes) (chars : List Char) (c : Char) : ScanStep :=
  match c with
  | 'u' => ([], some (hex quotes chars 4 0))
  | 'U' => ([], some (hex quotes chars 8 0))
  | ' ' | '\t' => ([], if quotes.isLong then some (joining quotes chars false) else none)
  | '\n' => ([], if quotes.isLong then some (joining quotes chars true) else none)
  | '\r' => ([], if quotes.isLong then some (lineEnd [] (joining quotes chars true)) else none)
  | _ => ([], (shortEscape? c).map fun e => quoted quotes (e :: chars))

/-- Reads a character after some quotes in a long text. Three of them end it, and up to two more
before those belong to it. -/
def stepClosing (mark : Char) (chars : List Char) (count : Nat) (c : Char) : ScanStep :=
  let withQuotes (n : Nat) : List Char := List.replicate n mark ++ chars
  if c = mark then
    if count < 4 then ([], some (closing mark chars (count + 1)))
    else ([textToken true (withQuotes 2)], some (between none))
  else if count < 3 then stepQuoted ⟨mark, true⟩ (withQuotes count) c
  else beginAfter [textToken true (withQuotes (count - 3))] c

def step (state : ScanState) (c : Char) : ScanStep :=
  match state with
  | between bracket => begin bracket c
  | word chars =>
    if isWordChar c then ([], some (word (c :: chars)))
    else if c = ' ' && looksLikeDate chars.reverse then ([], some (date chars))
    else beginAfter [wordToken chars] c
  | date chars =>
    if c.isDigit then ([], some (word (c :: ' ' :: chars)))
    else beginAfter [wordToken chars] c
  | comment =>
    if c = '\n' || c = '\r' then begin none c
    else ([], if isPlainChar c then some comment else none)
  | lineEnd tokens next => (tokens, if c = '\n' then some next else none)
  | opening mark isSecond =>
    if c = mark then ([], some (if isSecond then opened mark else opening mark true))
    else if isSecond then beginAfter [.text "" false] c
    else stepQuoted ⟨mark, false⟩ [] c
  | opened mark =>
    if c = '\n' then ([], some (quoted ⟨mark, true⟩ []))
    else if c = '\r' then ([], some (lineEnd [] (quoted ⟨mark, true⟩ [])))
    else stepQuoted ⟨mark, true⟩ [] c
  | quoted quotes chars => stepQuoted quotes chars c
  | closing mark chars count => stepClosing mark chars count c
  | escaped quotes chars => stepEscaped quotes chars c
  | hex quotes chars left value =>
    match hexDigit? c with
    | none => ([], none)
    | some digit =>
      let value := 16 * value + digit
      if left ≤ 1 then ([], (charOf? value).map fun char => quoted quotes (char :: chars))
      else ([], some (hex quotes chars (left - 1) value))
  | joining quotes chars hasLineEnd =>
    match c with
    | ' ' | '\t' => ([], some state)
    | '\n' => ([], some (joining quotes chars true))
    | '\r' => ([], some (lineEnd [] (joining quotes chars true)))
    | _ => if hasLineEnd then stepQuoted quotes chars c else ([], none)

/-- What the end of the text makes of the token that was begun. -/
def finish : ScanState → List Token
  | between _ | comment => []
  | word chars | date chars => [wordToken chars]
  | opening _ true => [.text "" false]
  | closing mark chars count =>
    if count < 3 then [.junk]
    else [textToken true (List.replicate (count - 3) mark ++ chars)]
  | _ => [.junk]

end ScanState

/-- Reads the rest of a text, with the tokens found so far in reverse. -/
def scanFrom (state : ScanState) (found : List Token) : List Char → List Token
  | [] => found.reverse ++ state.finish
  | c :: rest =>
    match state.step c with
    | (tokens, some state) => scanFrom state (tokens.reverse ++ found) rest
    | (tokens, none) => found.reverse ++ tokens ++ [.junk]

/-- The tokens of a text, which may begin with a byte order mark. -/
def tokens (s : String) : List Token :=
  scanFrom (.between none) [] <|
    match s.toList with
    | '\uFEFF' :: rest => rest
    | cs => cs

end TraitWeaver.Toml
