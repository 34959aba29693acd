/-
  Five-number summaries with boxplot whiskers and outliers.

  * The fences stand one and a half interquartile ranges outside the quartiles.
  * A whisker ends at the outermost measurement inside its fence, if that
    measurement also lies outside the box; otherwise at the quartile.
  * Measurements outside the fences are the outliers, in sample order.
-/
import FigureData.Fault
import FigureData.Statistics.Percentile
import FigureData.Statistics.Sample

namespace FigureData

/-- Summary of the distribution of one sample. -/
structure Summary where
  p05 : Float
  p25 : Float
  median : Float
  p75 : Float
  p95 : Float
  whiskerLow : Float
  whiskerHigh : Float
  outliers : List Float
  deriving DecidableEq

namespace Summary

/-- Multiple of the interquartile range between quartile and fence. -/
def fenceFactor : Float := 1.5

/-- The summary of a strategy that produced no usable sample. -/
def undefined : Summary where
  p05 := Binary64.missing
  p25 := Binary64.missing
  median := Binary64.missing
  p75 := Binary64.missing
  p95 := Binary64.missing
  whiskerLow := Binary64.missing
  whiskerHigh := Binary64.missing
  outliers := []

instance : Inhabited Summary := ⟨undefined⟩

def isUndefined (s : Summary) : Bool := s.median.isNaN

/-- The estimate for one of the five probabilities. -/
def quantile (s : Summary) : Probability → Float
  | .p05 => s.p05
  | .p25 => s.p25
  | .p50 => s.median
  | .p75 => s.p75
  | .p95 => s.p95

/-- Interquartile range. -/
def iqr (s : Summary) : Float := s.p75 - s.p25

/-- The fences that stand around the quartiles `p25` and `p75`. -/
def fencesAround (p25 p75 : Float) : Float × Float :=
  let spread := fenceFactor * (p75 - p25)
  (p25 - spread, p75 + spread)

/-- Lower and upper fence. -/
def fences (s : Summary) : Float × Float := fencesAround s.p25 s.p75

/-! ## Whiskers and outliers -/

/-- End of the lower whisker over an ascending list. -/
def lowerWhisker (sorted : List Float) (fence p25 : Float) : Float :=
  match sorted.find? fun x => fence ≤ x with
  | some x => if x ≤ p25 then x else p25
  | none => p25

/-- End of the upper whisker over an ascending list. -/
def upperWhisker (sorted : List Float) (fence p75 : Float) : Float :=
  match sorted.reverse.find? fun x => x ≤ fence with
  | some x => if p75 ≤ x then x else p75
  | none => p75

/-- The values below the lower or above the upper fence, in order. -/
def outside (values : List Float) (fences : Float × Float) : List Float :=
  values.filter fun x => decide (x < fences.1) || decide (fences.2 < x)

end Summary

/-! ## Summarising -/

namespace Fault

def emptySample : Fault where
  family := .degenerateSample
  code := "recon_stat.empty_sample"
  message := "cannot summarise an empty sample"

def missingValues (length : Nat) : Fault :=
  let fault : Fault :=
    { family := .degenerateSample
      code := "recon_stat.missing_values"
      message := "sample contains missing measurements" }
  (fault.withContext "len" (toString length)).withHint
    "resolve the missing-value policy before summarising"

/-- A percentile asked for a rank that the sample does not have. -/
def rankOutsideSample : Fault where
  family := .degenerateSample
  code := "recon_stat.rank_outside_sample"
  message := "a percentile lies outside the sample"

end Fault

namespace Summary

/-- The estimate for one probability of an ascending list. -/
def estimate (sorted : List Float) (p : Probability) : Except Fault Float :=
  match percentile? sorted p.value with
  | some x => .ok x
  | none => .error .rankOutsideSample

/-- Summary of an ascending list and of the same values in sample order. -/
def ofSorted (sorted values : List Float) : Except Fault Summary := do
  let p25 ← estimate sorted .p25
  let p75 ← estimate sorted .p75
  let fences := fencesAround p25 p75
  let p05 ← estimate sorted .p05
  let median ← estimate sorted .p50
  let p95 ← estimate sorted .p95
  return {
    p05, p25, median, p75, p95
    whiskerLow := lowerWhisker sorted fences.1 p25
    whiskerHigh := upperWhisker sorted fences.2 p75
    outliers := outside values fences }

end Summary

/-- Summary of a sample that is not empty and has no missing measurement. -/
def Sample.summarize (s : Sample) : Except Fault Summary :=
  if s.isEmpty then .error .emptySample
  else if s.hasMissing then .error (.missingValues s.length)
  else Summary.ofSorted (Binary64.sort s.values) s.values

end FigureData
