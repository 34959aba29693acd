/-
  The tokens of JSON text.

  A scanner reads one character at a time.  Punctuation is a token by itself;
  strings run from quote to quote; everything else is a run of word characters
  that must spell a literal name or a number.

  * Only space, tab, LF and CR may stand between tokens.
  * A double is its leading digits, as many as fit 64 bits, scaled by a power
    of ten.
  * A string holds no control characters.

  A token can be well formed and yet have no value: a number too large for a
  double, and a string with half of a surrogate pair.
-/
import FigureData.Json.Document
import FigureData.Number.Decimal

namespace FigureData.Json

inductive Token where
  | openArray
  | closeArray
  | openObject
  | closeObject
  | comma
  | colon
  | string (value : Option String)
  /-- A literal name or a number. -/
  | word (value : Option Json)

/-! ## Words -/

/-- Characters of numbers and literal names. -/
def isWordChar (c : Char) : Bool := c.isAlphanum || c = '+' || c = '-' || c = '.'

/-- Splits off a whole part: a single zero, or digits that do not start with zero. -/
def takeWhole? (cs : List Char) : Option (List Char × List Char) :=
  let (digits, rest) := Digits.take cs
  match digits with
  | [] => none
  | ['0'] => some (digits, rest)
  | '0' :: _ => none
  | _ => some (digits, rest)

/-- Splits off a point and the digits after it, when there is a point. -/
def takeFraction? : List Char → Option (List Char × List Char)
  | '.' :: more =>
    let (digits, rest) := Digits.take more
    if digits.isEmpty then none else some (digits, rest)
  | cs => some ([], cs)

/-- Appends digits to a significand while it fits 64 bits; also counts the
digits left over. -/
def fitDigits (significand : Nat) : List Char → Nat × Nat
  | [] => (significand, 0)
  | c :: rest =>
    let next := 10 * significand + Digits.value c
    if next < Nat.pow 2 64 then fitDigits next rest else (significand, rest.length + 1)

/-- A power of ten up to `10 ^ 308`, rounded to a double. -/
def powerOfTen (n : Nat) : Float := Float.ofScientific 1 false n

/-- Scales a significand by a power of ten: in one rounded operation where the
power is a double, else in two.  A result too large for a double is refused. -/
def scale? (significand : Nat) (exponent : Int) : Option Float :=
  let f := Binary64.ofNat significand
  let n := exponent.natAbs
  if 0 ≤ exponent then
    if significand = 0 then some f
    else if 308 < n then none
    else
      let x := f * powerOfTen n
      if x.isFinite then some x else none
  else if n ≤ 308 then some (f / powerOfTen n)
  else if n ≤ 616 then some (f / powerOfTen 308 / powerOfTen (n - 308))
  else some 0.0

/-- A double from the sign, the digits before and after the point and the
power of ten of a numeral; none beyond the range of doubles. -/
def double? (negative : Bool) (whole fraction : List Char) (power : Int) : Option Json := do
  let (significand, dropped) := fitDigits 0 whole
  let (significand, unread) := fitDigits significand fraction
  let x ← scale? significand (power + dropped - (fraction.length - unread : Nat))
  return .float (if negative then -x else x)

/-- A numeral without point and exponent: an integer when it fits 64 bits, else
a double.  Minus zero is a double. -/
def integer? (negative : Bool) (digits : List Char) : Option Json :=
  let n := Digits.toNat digits
  if negative then
    if n = 0 ∨ Nat.pow 2 63 < n then double? true digits [] 0 else some (.int (-(n : Int)))
  else if n < Nat.pow 2 64 then some (.int n)
  else double? false digits [] 0

/-- Reads a number: sign, whole part, fraction and exponent.  The inner option
is the value. -/
def readNumber? (cs : List Char) : Option (Option Json) := do
  let (negative, cs) :=
    match cs with
    | '-' :: rest => (true, rest)
    | _ => (false, cs)
  let (whole, cs) ← takeWhole? cs
  if cs.isEmpty then return integer? negative whole
  else
    let (fraction, cs) ← takeFraction? cs
    let power ← Decimal.readExponent? cs
    return double? negative whole fraction power

/-- What a word spells; the inner option is its value. -/
def word? (cs : List Char) : Option (Option Json) :=
  if cs = "null".toList then some (some .null)
  else if cs = "true".toList then some (some (.bool true))
  else if cs = "false".toList then some (some (.bool false))
  else readNumber? cs

/-! ## Strings -/

def isHighSurrogate (unit : Nat) : Bool := 0xD800 ≤ unit && unit ≤ 0xDBFF

def isLowSurrogate (unit : Nat) : Bool := 0xDC00 ≤ unit && unit ≤ 0xDFFF

/-- The characters of a run of code units: a pair of surrogates makes one
character, and half a pair none. -/
def charsOfUnits? : List Nat → Option (List Char)
  | [] => some []
  | high :: low :: rest =>
    if isHighSurrogate high then
      if isLowSurrogate low then
        let code := 0x10000 + (high - 0xD800) * 0x400 + (low - 0xDC00)
        (charsOfUnits? rest).map (Char.ofNat code :: ·)
      else none
    else if isLowSurrogate high then none
    else (charsOfUnits? (low :: rest)).map (Char.ofNat high :: ·)
  | [unit] =>
    if isHighSurrogate unit || isLowSurrogate unit then none else some [Char.ofNat unit]

/-- The token of a string whose code units were read, given in reverse. -/
def stringToken (read : List Nat) : Token :=
  .string ((charsOfUnits? read.reverse).map String.ofList)

/-! ## Scanner -/

/-- What the scanner is inside of.  What was read so far is kept in reverse, the
content of a string as code units. -/
inductive ScanMode where
  | between
  | word (read : List Char)
  | string (read : List Nat)
  /-- After a backslash. -/
  | escape (read : List Nat)
  /-- Inside `\u`: hexadecimal digits still owed and the value of those read. -/
  | hex (read : List Nat) (owed value : Nat)

def hexValue? (c : Char) : Option Nat :=
  if '0' ≤ c ∧ c ≤ '9' then some (c.toNat - '0'.toNat)
  else if 'a' ≤ c ∧ c ≤ 'f' then some (c.toNat - 'a'.toNat + 10)
  else if 'A' ≤ c ∧ c ≤ 'F' then some (c.toNat - 'A'.toNat + 10)
  else none

/-- The character that a one-letter escape stands for. -/
def escaped? : Char → Option Char
  | '"' => some '"'
  | '\\' => some '\\'
  | '/' => some '/'
  | 'b' => some '\x08'
  | 'f' => some '\x0c'
  | 'n' => some '\n'
  | 'r' => some '\r'
  | 't' => some '\t'
  | _ => none

/-- A character between tokens. -/
def startToken (c : Char) : Option (ScanMode × List Token) :=
  match c with
  | ' ' | '\t' | '\n' | '\r' => some (.between, [])
  | '[' => some (.between, [.openArray])
  | ']' => some (.between, [.closeArray])
  | '\x7b' => some (.between, [.openObject])
  | '\x7d' => some (.between, [.closeObject])
  | ',' => some (.between, [.comma])
  | ':' => some (.between, [.colon])
  | '"' => some (.string [], [])
  | _ => if isWordChar c then some (.word [c], []) else none

/-- One character: the next mode and the tokens that it completes. -/
def scanChar (mode : ScanMode) (c : Char) : Option (ScanMode × List Token) :=
  match mode with
  | .between => startToken c
  | .word read =>
    if isWordChar c then some (.word (c :: read), [])
    else do
      let value ← word? read.reverse
      let (next, tokens) ← startToken c
      return (next, .word value :: tokens)
  | .string read =>
    if c = '"' then some (.between, [stringToken read])
    else if c = '\\' then some (.escape read, [])
    else if c.toNat < 0x20 then none
    else some (.string (c.toNat :: read), [])
  | .escape read =>
    if c = 'u' then some (.hex read 4 0, [])
    else (escaped? c).map fun e => (.string (e.toNat :: read), [])
  | .hex read owed value =>
    (hexValue? c).map fun digit =>
      let value := 16 * value + digit
      if owed ≤ 1 then (.string (value :: read), []) else (.hex read (owed - 1) value, [])

/-- The end of the text: a word ends there, a string may not. -/
def scanEnd : ScanMode → Option (List Token)
  | .between => some []
  | .word read => (word? read.reverse).map fun value => [.word value]
  | _ => none

/-- Reads the rest of a text; `done` holds the tokens so far in reverse. -/
def scan (mode : ScanMode) (done : List Token) : List Char → Option (List Token)
  | [] => (scanEnd mode).map fun last => done.reverse ++ last
  | c :: rest =>
    match scanChar mode c with
    | some (next, tokens) => scan next (tokens.reverse ++ done) rest
    | none => none

/-- All tokens of a text. -/
def tokens? (cs : List Char) : Option (List Token) := scan .between [] cs

end FigureData.Json
