/-
  Comparing a candidate strategy with a baseline by their medians.

  The ratio of the medians is a quotient, except where a rule of higher rank
  applies: an undefined median gives an undefined ratio, equal medians give
  parity even when both are zero, and a zero baseline gives the sentinel.
-/
import FigureData.Statistics.Summary

namespace FigureData

/-! ## Ratios -/

/-- The rule that produced a ratio. -/
inductive RatioRule where
  /-- Equal medians that are not zero. -/
  | parity
  /-- Both medians are zero. -/
  | bothZero
  /-- Only the baseline median is zero. -/
  | baselineZero
  /-- The quotient of the medians. -/
  | quotient
  /-- A median is undefined. -/
  | undefined
  deriving DecidableEq, Repr, Inhabited

def RatioRule.name : RatioRule → String
  | .parity => "parity"
  | .bothZero => "both-zero"
  | .baselineZero => "baseline-zero"
  | .quotient => "quotient"
  | .undefined => "undefined"

/-- Candidate median relative to the baseline median. -/
structure MedianRatio where
  value : Float
  rule : RatioRule
  deriving DecidableEq

/-- Value of a ratio whose baseline median is zero, unless another is configured. -/
def defaultSentinel : Float := 1000000.0

/-- The ratio of two medians; `sentinel` stands for a quotient by zero. -/
def MedianRatio.between (baseline candidate sentinel : Float) : MedianRatio :=
  if baseline.isNaN || candidate.isNaN then ⟨Binary64.missing, .undefined⟩
  else if candidate == baseline then
    if baseline == 0.0 then ⟨1.0, .bothZero⟩ else ⟨1.0, .parity⟩
  else if baseline == 0.0 then ⟨sentinel, .baselineZero⟩
  else ⟨candidate / baseline, .quotient⟩

/-! ## Comparisons -/

/-- Outcome of comparing two strategies on one network. -/
structure Comparison where
  ratio : MedianRatio
  baselineMedian : Float
  candidateMedian : Float
  /-- How far the candidate median lies above the ideal value, when that is known. -/
  gapToIdeal : Option Float
  deriving DecidableEq

/-- Compares two summaries. -/
def Summary.compareWith (baseline candidate : Summary) (ideal : Option Float)
    (sentinel : Float) : Comparison where
  ratio := .between baseline.median candidate.median sentinel
  baselineMedian := baseline.median
  candidateMedian := candidate.median
  gapToIdeal := ideal.map fun best => candidate.median - best

end FigureData
