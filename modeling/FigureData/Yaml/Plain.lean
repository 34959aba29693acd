/-
  What an unquoted scalar of YAML stands for.

  A plain scalar may spell null, a truth value or a number; any other is text.
  Digits after a leading zero are text.
-/
import FigureData.Number.Decimal
import FigureData.Text.Split

namespace FigureData.Yaml

/-! ## Names -/

def isNullName (text : String) : Bool :=
  text = "null" || text = "Null" || text = "NULL" || text = "~"

def isTruthName (text : String) : Bool :=
  text = "true" || text = "True" || text = "TRUE" || text = "false" || text = "False" ||
    text = "FALSE"

def infinity : Float := 1.0 / 0.0

/-- Names of the doubles that have no digits. -/
def namedFloat? (text : String) : Option Float :=
  match text with
  | ".inf" | ".Inf" | ".INF" | "+.inf" | "+.Inf" | "+.INF" => some infinity
  | "-.inf" | "-.Inf" | "-.INF" => some (-infinity)
  | ".nan" | ".NaN" | ".NAN" => some Binary64.missing
  | _ => none

/-! ## Numbers -/

/-- Digits after a leading zero, with an optional sign. -/
def isZeroPadded (cs : List Char) : Bool :=
  match (Decimal.takeSign cs).2 with
  | '0' :: d :: rest => (d :: rest).all Char.isDigit
  | _ => false

/-- The value of a digit in a base up to 16. -/
def digitIn? (base : Nat) (c : Char) : Option Nat :=
  let value? :=
    if '0' ≤ c ∧ c ≤ '9' then some (c.toNat - '0'.toNat)
    else if 'a' ≤ c ∧ c ≤ 'f' then some (c.toNat - 'a'.toNat + 10)
    else if 'A' ≤ c ∧ c ≤ 'F' then some (c.toNat - 'A'.toNat + 10)
    else none
  value?.filter fun v => v < base

/-- The number that at least one digit denotes in a base. -/
def digitsIn? (base : Nat) (cs : List Char) : Option Nat :=
  if cs.isEmpty then none
  else cs.foldlM (fun n c => (digitIn? base c).map fun v => base * n + v) 0

/-- A magnitude: digits, or `0x`, `0o` or `0b` and digits of that base. -/
def magnitude? : List Char → Option Nat
  | '0' :: 'x' :: rest => digitsIn? 16 rest
  | '0' :: 'o' :: rest => digitsIn? 8 rest
  | '0' :: 'b' :: rest => digitsIn? 2 rest
  | cs => if isZeroPadded cs then none else digitsIn? 10 cs

/-- The magnitude of an integer with an optional sign, `true` for minus. -/
def integer? (cs : List Char) : Option (Bool × Nat) :=
  let (negative, digits) := Decimal.takeSign cs
  (magnitude? digits).map fun n => (negative, n)

/-- A count below `2 ^ bits`. -/
def count? (bits : Nat) (text : String) : Option Nat :=
  match integer? text.toList with
  | some (false, n) => if n < Nat.pow 2 bits then some n else none
  | _ => none

/-- A finite numeral with an optional sign, or a name of a double without digits. -/
def float? (text : String) : Option Float :=
  match namedFloat? text with
  | some x => some x
  | none => ((Decimal.read? text.toList).map Decimal.toFloat).filter Float.isFinite

/-- An integer of at most 128 bits. -/
def isInteger (text : String) : Bool :=
  match integer? text.toList with
  | some (false, n) => n < Nat.pow 2 128
  | some (true, n) => n ≤ Nat.pow 2 127
  | none => false

/-- Would a text without quotes be read as something else? -/
def spellsValue (text : String) : Bool :=
  text.isEmpty || isNullName text || isTruthName text || isInteger text ||
    isZeroPadded text.toList || (float? text).isSome

end FigureData.Yaml
