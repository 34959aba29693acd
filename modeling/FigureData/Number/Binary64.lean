/-
  Doubles as the program sees them: sign, significand and exponent of a finite
  value, the total order used for sorting, and sums, maxima and minima with
  their conventions for values that are not numbers.

  * A missing measurement is the value that is not a number (`missing`).
  * `totalLe` orders all doubles: negative zero comes before zero, infinities
    are outermost.
  * `larger` and `smaller` ignore an operand that is not a number.
-/
namespace FigureData.Binary64

/-- The marker of a missing measurement. -/
def missing : Float := 0.0 / 0.0

def isNegative (x : Float) : Bool := x.toBits >>> 63 == 1

/-- The bits below the sign. -/
def magnitudeBits (x : Float) : Nat := (x.toBits &&& 0x7FFFFFFFFFFFFFFF).toNat

/-- Significand and binary exponent of the magnitude of a finite value:
`|x| = significand * 2 ^ exponent`. -/
def magnitude (x : Float) : Nat × Int :=
  let bits := magnitudeBits x
  let fraction : Nat := bits % Nat.pow 2 52
  let biased : Nat := bits / Nat.pow 2 52
  if biased = 0 then (fraction, -1074) else (fraction + Nat.pow 2 52, (biased : Int) - 1075)

/-! ## Order -/

/-- Position of a double in the total order. -/
def totalKey (x : Float) : Int :=
  if isNegative x then -(magnitudeBits x : Int) - 1 else magnitudeBits x

/-- The total order of doubles: by sign, then by magnitude. -/
def totalLe (x y : Float) : Bool := totalKey x ≤ totalKey y

/-- Stable sort in the total order. -/
def sort (xs : List Float) : List Float := xs.mergeSort totalLe

/-- The operand later in the total order; one that is not a number is ignored. -/
def larger (x y : Float) : Float :=
  if x.isNaN then y else if y.isNaN then x else if totalLe x y then y else x

/-- The operand earlier in the total order; one that is not a number is ignored. -/
def smaller (x y : Float) : Float :=
  if x.isNaN then y else if y.isNaN then x else if totalLe x y then x else y

/-! ## Sums and counts -/

/-- Sum from the left; the empty sum is negative zero, the neutral element of addition. -/
def sum (xs : List Float) : Float := xs.foldl (· + ·) (-0.0)

/-- The double nearest to a natural number. -/
def ofNat (n : Nat) : Float := Float.ofNat n

/-- The double nearest to an integer. -/
def ofInt (n : Int) : Float := Float.ofInt n

/-! ## Laws -/

theorem totalLe_total (x y : Float) : (totalLe x y || totalLe y x) = true := by
  simp only [totalLe, Bool.or_eq_true, decide_eq_true_eq]
  omega

theorem totalLe_trans (x y z : Float) (hxy : totalLe x y = true) (hyz : totalLe y z = true) :
    totalLe x z = true := by
  simp only [totalLe, decide_eq_true_eq] at *
  omega

theorem sort_perm (xs : List Float) : (sort xs).Perm xs := List.mergeSort_perm xs _

theorem sort_pairwise (xs : List Float) : (sort xs).Pairwise fun x y => totalLe x y = true :=
  List.pairwise_mergeSort totalLe_trans totalLe_total xs

@[simp] theorem length_sort (xs : List Float) : (sort xs).length = xs.length :=
  (sort_perm xs).length_eq

end FigureData.Binary64
