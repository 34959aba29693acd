/-
  Writing doubles as text, once their shortest digits are known.

  A `Layout` says which numbers are written positionally, whether a whole
  number keeps a point, whether a positive exponent carries a plus sign and
  which of two equally near shortest decimals is written.
  The layouts in use belong to the formats that use them; the plain one, which
  never uses an exponent, is here.
-/
import FigureData.Number.Shortest

namespace FigureData

/-- How digits with a decimal point are laid out. -/
structure Layout where
  /-- Is a number whose point stands after `point` digits written positionally? -/
  positional : Int → Bool
  /-- Does a whole number end in `.0`? -/
  keepsPoint : Bool
  /-- Is a positive exponent written with a plus sign? -/
  plusExponent : Bool
  /-- Choice between two equally near decimals. -/
  tie : Shortest.Tie

namespace Layout

/-- Positional at every size, whole numbers without a point; ties go away from zero. -/
def plain : Layout := ⟨fun _ => true, false, false, .away⟩

def zeros (n : Nat) : List Char := List.replicate n '0'

/-- Digits with the point after `point` of them, filled with zeros on either side. -/
def writePositional (keepsPoint : Bool) (digits : List Char) (point : Int) : List Char :=
  if point ≤ 0 then '0' :: '.' :: (zeros point.natAbs ++ digits)
  else
    let n := point.toNat
    if digits.length ≤ n then
      digits ++ zeros (n - digits.length) ++ (if keepsPoint then ['.', '0'] else [])
    else digits.take n ++ '.' :: digits.drop n

/-- One digit, the point and the other digits, and the exponent. -/
def writeScientific (plusExponent : Bool) (digits : List Char) (point : Int) : List Char :=
  let mantissa :=
    match digits with
    | [] => []
    | [d] => [d]
    | d :: more => d :: '.' :: more
  let e := point - 1
  let exponent :=
    if e < 0 then '-' :: Digits.ofNat e.natAbs
    else if plusExponent then '+' :: Digits.ofNat e.natAbs
    else Digits.ofNat e.natAbs
  mantissa ++ 'e' :: exponent

/-- The text of a decimal. -/
def writeDecimal (layout : Layout) (d : Decimal) : List Char :=
  let digits := Digits.ofNat d.coefficient
  let point : Int := digits.length + d.exponent
  let body :=
    if d.coefficient = 0 then if layout.keepsPoint then ['0', '.', '0'] else ['0']
    else if layout.positional point then writePositional layout.keepsPoint digits point
    else writeScientific layout.plusExponent digits point
  if d.negative then '-' :: body else body

/-- The text of a finite double: its shortest digits in this layout. -/
def writeFinite (layout : Layout) (x : Float) : List Char :=
  layout.writeDecimal (Shortest.ofFloat layout.tie x)

end Layout

/-! ## Plain numbers -/

/-- Names of the doubles that have no digits. -/
def nameOfNonFinite (x : Float) : String :=
  if x.isNaN then "NaN" else if Binary64.isNegative x then "-inf" else "inf"

/-- The plain text of a double. -/
def plainNumber (x : Float) : String :=
  if x.isFinite then String.ofList (Layout.plain.writeFinite x) else nameOfNonFinite x

end FigureData
