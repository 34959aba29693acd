/-
  Percentiles by linear interpolation between the closest ranks.

  The position of probability `q` among `n` values is `q * (n - 1)`.  The
  estimate lies between the values at the ranks on either side of it
  (`rankBelow`, `rankAbove`) and is clamped to them, so that rounding cannot
  move it past a neighbour.
-/
import FigureData.Number.Binary64

namespace FigureData

/-- The five probabilities at which every sample is summarised. -/
inductive Probability where
  | p05
  | p25
  | p50
  | p75
  | p95
  deriving DecidableEq, Repr, Inhabited

namespace Probability

/-- All of them, ascending. -/
def all : List Probability := [.p05, .p25, .p50, .p75, .p95]

def value : Probability → Float
  | .p05 => 0.05
  | .p25 => 0.25
  | .p50 => 0.5
  | .p75 => 0.75
  | .p95 => 0.95

/-- Two digits used in column headers. -/
def suffix : Probability → String
  | .p05 => "05"
  | .p25 => "25"
  | .p50 => "50"
  | .p75 => "75"
  | .p95 => "95"

/-- Name used when a probability is written as data. -/
def name (p : Probability) : String := "P" ++ p.suffix

def ofName? (text : String) : Option Probability := all.find? fun p => p.name = text

theorem ofName?_name (p : Probability) : ofName? p.name = some p := by
  cases p <;> decide

end Probability

/-! ## Interpolation -/

/-- Position of probability `q` among `n` values, counted from 0. -/
def position (q : Float) (n : Nat) : Float := q * Binary64.ofNat (n - 1)

/-- The last rank that is not after the position; 0 for a position below 0 or
without a value. -/
def rankBelow (pos : Float) : Nat := pos.toUInt64.toNat

/-- The first rank that is not before the position. -/
def rankAbove (pos : Float) : Nat :=
  let below := rankBelow pos
  if Binary64.ofNat below < pos then below + 1 else below

/-- The point that divides the way from `low` to `high` in the ratio given by
`weight`, kept between them. -/
def interpolate (low high weight : Float) : Float :=
  Binary64.smaller (Binary64.larger (low + (high - low) * weight) low) high

/-- The estimate for probability `q` of a list taken as ascending.  An empty
list has an estimate without a value; `none` says that a rank lies outside the list. -/
def percentile? (sorted : List Float) (q : Float) : Option Float :=
  if sorted.isEmpty then some Binary64.missing
  else
    let pos := position q sorted.length
    let below := rankBelow pos
    let above := rankAbove pos
    if below = above then sorted[below]?
    else
      match sorted[below]?, sorted[above]? with
      | some low, some high => some (interpolate low high (pos - Binary64.ofNat below))
      | _, _ => none

theorem percentile?_nil (q : Float) : percentile? [] q = some Binary64.missing := rfl

end FigureData
