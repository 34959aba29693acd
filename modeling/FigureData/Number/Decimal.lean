/-
  Decimal numerals: digits, their value, and the double nearest to a decimal.

  A `Decimal` is a sign, a natural coefficient and a power of ten.  It is what
  a numeral means before rounding and what a printed double consists of.
-/
import FigureData.Number.Binary64

namespace FigureData

/-! ## Digits -/

namespace Digits

/-- Digits of a natural number, most significant first, without leading zeros. -/
def ofNat (n : Nat) : List Char := Nat.toDigits 10 n

def value (c : Char) : Nat := c.toNat - '0'.toNat

/-- The number that a run of digits denotes. -/
def toNat (digits : List Char) : Nat := digits.foldl (fun n c => 10 * n + value c) 0

/-- Splits off the digits at the front. -/
def take (cs : List Char) : List Char × List Char := cs.span Char.isDigit

end Digits

/-! ## Decimals -/

/-- The number `± coefficient * 10 ^ exponent`. -/
structure Decimal where
  negative : Bool
  coefficient : Nat
  exponent : Int
  deriving DecidableEq, Repr

namespace Decimal

/-- Moves trailing zeros of the coefficient into the exponent, at most `fuel` of them. -/
def stripZeros (fuel : Nat) (d : Decimal) : Decimal :=
  match fuel with
  | 0 => d
  | fuel + 1 =>
    if d.coefficient % 10 = 0 then
      stripZeros fuel ⟨d.negative, d.coefficient / 10, d.exponent + 1⟩
    else d

/-- The same number with a coefficient that does not end in a zero, or with
coefficient and exponent zero. -/
def normal (d : Decimal) : Decimal :=
  if d.coefficient = 0 then ⟨d.negative, 0, 0⟩ else stripZeros d.coefficient d

/-- The double nearest to the magnitude of a decimal; a tie goes to the even neighbour. -/
def magnitudeToFloat (d : Decimal) : Float :=
  if d.exponent < 0 then Float.ofScientific d.coefficient true d.exponent.natAbs
  else Float.ofScientific d.coefficient false d.exponent.natAbs

/-- The double nearest to a decimal; it keeps the sign of zero. -/
def toFloat (d : Decimal) : Float :=
  if d.negative then -d.normal.magnitudeToFloat else d.normal.magnitudeToFloat

/-- The decimal written with these digits before and after the point, and a power of ten. -/
def ofDigits (negative : Bool) (whole fraction : List Char) (power : Int) : Decimal where
  negative
  coefficient := Digits.toNat (whole ++ fraction)
  exponent := power - fraction.length

/-! ## Reading numerals -/

/-- A sign at the front, `true` for minus. -/
def takeSign : List Char → Bool × List Char
  | '-' :: rest => (true, rest)
  | '+' :: rest => (false, rest)
  | cs => (false, cs)

/-- The exponent part `e5`, `E-5` or `e+5` that ends a numeral; nothing stands for zero. -/
def readExponent? : List Char → Option Int
  | [] => some 0
  | c :: rest =>
    if c = 'e' ∨ c = 'E' then
      let (negative, digits) := takeSign rest
      if digits.isEmpty || !digits.all Char.isDigit then none
      else
        let n : Int := Digits.toNat digits
        some (if negative then -n else n)
    else none

/-- Reads an unsigned numeral: digits with at most one point among or around
them, and an optional exponent part. -/
def readUnsigned? (negative : Bool) (cs : List Char) : Option Decimal :=
  let (whole, rest) := Digits.take cs
  let (fraction, rest) :=
    match rest with
    | '.' :: more => Digits.take more
    | _ => ([], rest)
  if whole.isEmpty && fraction.isEmpty then none
  else (readExponent? rest).map (ofDigits negative whole fraction)

/-- Reads a numeral with an optional sign. -/
def read? (cs : List Char) : Option Decimal :=
  let (negative, rest) := takeSign cs
  readUnsigned? negative rest

/-- Names of values without digits, in lower case. -/
def namedValue? (name : String) : Option Float :=
  match name with
  | "inf" | "infinity" => some (1.0 / 0.0)
  | "nan" => some Binary64.missing
  | _ => none

/-- Reads a number: a numeral, or the name of an infinity or of the value that
is not a number, in any case, with an optional sign. -/
def readFloat? (cs : List Char) : Option Float :=
  match read? cs with
  | some d => some d.toFloat
  | none =>
    let (negative, rest) := takeSign cs
    (namedValue? (String.ofList (rest.map Char.toLower))).map fun x => if negative then -x else x

/-- Reads a count below `2 ^ bits`: digits with an optional plus sign. -/
def readCount? (bits : Nat) (cs : List Char) : Option Nat :=
  let digits :=
    match cs with
    | '+' :: rest => rest
    | _ => cs
  if digits.isEmpty || !digits.all Char.isDigit then none
  else
    let n := Digits.toNat digits
    if n < Nat.pow 2 bits then some n else none

end Decimal

end FigureData
