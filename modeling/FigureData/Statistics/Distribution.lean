/-
  The empirical distribution of a column of ratios, and how it is drawn.

  Ratios at most one fit a plain curve.  When the largest one exceeds one, the
  drawing is split there and needs the largest ratio and the share below.
-/
import FigureData.Number.Binary64

namespace FigureData

/-- Share of the values at or below `threshold`; 0 for an empty list. -/
def fractionAtOrBelow (values : List Float) (threshold : Float) : Float :=
  if values.isEmpty then 0.0
  else
    Binary64.ofNat (values.filter fun x => decide (x ≤ threshold)).length /
      Binary64.ofNat values.length

/-- The largest value that is a number; a list without one has no number as maximum. -/
def maximum (values : List Float) : Float :=
  (values.filter fun x => !x.isNaN).foldl Binary64.larger Binary64.missing

/-- How the curve of a column of ratios is drawn. -/
inductive CurveBranch where
  /-- No ratio exceeds one. -/
  | bounded
  /-- Some ratio exceeds one: the curve is split at one. -/
  | withOutliers (maxRatio fractionLessEqualOne : Float)
  deriving DecidableEq

/-- Chooses by whether the largest ratio exceeds one. -/
def CurveBranch.ofRatios (ratios : List Float) : CurveBranch :=
  if 1.0 < maximum ratios then .withOutliers (maximum ratios) (fractionAtOrBelow ratios 1.0)
  else .bounded

end FigureData
