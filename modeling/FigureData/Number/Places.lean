/-
  Numbers with a fixed count of decimals.

  The exact value of a double is rounded to the grid of `10 ^ -places`; a tie
  goes to the even neighbour (`roundHalfEven`).  There is no text with more than
  `maxPlaces` decimals.
-/
import FigureData.Number.Layout

namespace FigureData

/-- The integer nearest to `num / den`; of two equally near the even one. -/
def roundHalfEven (num den : Nat) : Nat :=
  let q := num / den
  let r := num % den
  if 2 * r < den then q
  else if den < 2 * r then q + 1
  else if q % 2 = 0 then q else q + 1

namespace Places

/-- Digits of `n` with the last `places` of them after the point. -/
def insertPoint (places n : Nat) : List Char :=
  let digits := Digits.ofNat n
  let padded := Layout.zeros (places + 1 - digits.length) ++ digits
  let whole := padded.length - places
  if places = 0 then padded else padded.take whole ++ '.' :: padded.drop whole

/-- Most decimals of a double other than zeros at the end. -/
def exactPlaces : Nat := 1074

/-- The text of a finite double with `places` decimals; the sign is kept even of a zero. -/
def writeFinite (places : Nat) (x : Float) : List Char :=
  let r := Shortest.exact x
  let rounded := min places exactPlaces
  let digits := insertPoint rounded (roundHalfEven (r.num * Nat.pow 10 rounded) r.den)
  let body := digits ++ Layout.zeros (places - rounded)
  if Binary64.isNegative x then '-' :: body else body

end Places

/-- Most decimals that a number can be written with. -/
def maxPlaces : Nat := 65535

/-- The text of a double: with a fixed count of decimals when one is given,
else with its shortest digits. -/
def writeNumber? (places? : Option Nat) (x : Float) : Option String :=
  match places? with
  | none => some (plainNumber x)
  | some places =>
    if maxPlaces < places then none
    else if x.isFinite then some (String.ofList (Places.writeFinite places x))
    else some (nameOfNonFinite x)

/-! ## Laws of rounding -/

theorem roundHalfEven_within (num den : Nat) (h : 0 < den) :
    2 * num ≤ 2 * (roundHalfEven num den * den) + den ∧
      2 * (roundHalfEven num den * den) ≤ 2 * num + den := by
  have hdiv : den * (num / den) + num % den = num := Nat.div_add_mod num den
  have hmod : num % den < den := Nat.mod_lt num h
  have hsucc : (num / den + 1) * den = den * (num / den) + den := by
    rw [Nat.add_mul, Nat.mul_comm, Nat.one_mul]
  have hq : num / den * den = den * (num / den) := Nat.mul_comm _ _
  unfold roundHalfEven
  dsimp only
  split
  · omega
  · split
    · omega
    · split <;> omega

end FigureData
