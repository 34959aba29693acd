/-
  Shortest decimals: the fewest digits that read back as the same double.

  For 1, 2, ... 17 digits the two neighbours of the value on the decimal grid
  of that width are tried, the nearer first; the first that reads back is the
  answer.  Which of two equally near ones comes first is up to the caller.
  Whether a decimal reads back is asked of the reader itself, so an answer that
  is found reads back by construction (`toFloat_of_firstHit?`).
-/
import FigureData.Number.Decimal

namespace FigureData.Shortest

/-- A positive rational number `num / den`. -/
structure Ratio where
  num : Nat
  den : Nat

/-- The magnitude of a finite double, exactly. -/
def exact (x : Float) : Ratio :=
  let (m, q) := Binary64.magnitude x
  if q < 0 then ⟨m, Nat.pow 2 q.natAbs⟩ else ⟨m * Nat.pow 2 q.natAbs, 1⟩

/-- Decimal exponent of the leading digit: the `e` with `10 ^ e ≤ r < 10 ^ (e + 1)`. -/
def leadingExponent (r : Ratio) : Int :=
  if r.den ≤ r.num then ((Digits.ofNat (r.num / r.den)).length : Int) - 1
  else
    let d := (Digits.ofNat (r.den / r.num)).length
    if r.den ≤ r.num * Nat.pow 10 (d - 1) then -((d : Int) - 1) else -(d : Int)

/-- The rational `r / 10 ^ k`. -/
def scaleDown (r : Ratio) (k : Int) : Ratio :=
  if k < 0 then ⟨r.num * Nat.pow 10 k.natAbs, r.den⟩ else ⟨r.num, r.den * Nat.pow 10 k.natAbs⟩

/-- The choice between two equally near decimals. -/
inductive Tie where
  /-- The one with the larger magnitude. -/
  | away
  /-- The one with an even coefficient. -/
  | even
  deriving DecidableEq, Repr, Inhabited

/-- Does the smaller of two equally near coefficients win? -/
def Tie.keepsLow (tie : Tie) (low : Nat) : Bool :=
  match tie with
  | .away => false
  | .even => low % 2 = 0

/-- The two neighbours of `r` among the multiples of `10 ^ k`, the nearer first. -/
def neighbours (tie : Tie) (negative : Bool) (r : Ratio) (k : Int) : List Decimal :=
  let s := scaleDown r k
  let below := s.num / s.den
  let remainder := s.num % s.den
  let low : Decimal := ⟨negative, below, k⟩
  let high : Decimal := ⟨negative, below + 1, k⟩
  if 2 * remainder < s.den || (2 * remainder == s.den && tie.keepsLow below) then [low, high]
  else [high, low]

/-- Does `d` read back as `x`? -/
def readsBack (x : Float) (d : Decimal) : Bool := d.toFloat == x

/-- The first of the decimals that reads back as `x`. -/
def firstHit? (x : Float) (candidates : List Decimal) : Option Decimal :=
  candidates.find? (readsBack x)

/-- Neighbours on the grids of 1, 2, ... 17 digits. -/
def candidates (tie : Tie) (x : Float) : List Decimal :=
  let r := exact x
  let e := leadingExponent r
  (List.range 17).flatMap fun n : Nat => neighbours tie (Binary64.isNegative x) r (e - n)

/-- All digits of a finite double. -/
def allDigits (x : Float) : Decimal :=
  let (m, q) := Binary64.magnitude x
  if q < 0 then ⟨Binary64.isNegative x, m * Nat.pow 5 q.natAbs, q⟩
  else ⟨Binary64.isNegative x, m * Nat.pow 2 q.natAbs, 0⟩

/-- The shortest decimal that reads back as the finite double `x`; of two of
the same length, the nearer one.  A zero has coefficient 0. -/
def ofFloat (tie : Tie) (x : Float) : Decimal :=
  if Binary64.magnitudeBits x = 0 then ⟨Binary64.isNegative x, 0, 0⟩
  else
    match firstHit? x (candidates tie x) with
    | some d => d.normal
    | none => allDigits x

theorem toFloat_of_firstHit? {x : Float} {candidates : List Decimal} {d : Decimal}
    (h : firstHit? x candidates = some d) : (d.toFloat == x) = true := by
  have hd : readsBack x d = true := List.find?_some h
  exact hd

end FigureData.Shortest
