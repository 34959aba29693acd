/-
  Summarising an entity under the policies of a descriptor.

  The samples are taken in order.  A complete sample is summarised.  An
  incomplete one is settled by the policy of its strategy: an undefined
  summary, an entity that is left out, or a run that stops.
-/
import FigureData.Descriptor.Basic
import FigureData.Entity.Basic

namespace FigureData

namespace Fault

/-- A strategy that must always converge has an incomplete sample. -/
def noSolutionAborts (label : String) : Fault :=
  let fault : Fault :=
    { family := .undefinedResult, code := "strategy_without_solution"
      message := label ++ " has no solution" }
  fault.withHint "this strategy must always converge; the run is aborted"

def noSolution (label : String) : Fault where
  family := .undefinedResult
  code := "strategy_without_solution"
  message := label ++ " has no solution"

def noMeasurement (label : String) : Fault where
  family := .degenerateSample
  code := "empty_sample"
  message := label ++ " produced no measurement"

end Fault

/-- The summary of a strategy's sample, or why there is none. -/
def resolveSample (label : String) (sample : Sample) (policy : MissingPolicy) :
    Except Fault Summary :=
  if sample.isComplete then sample.summarize
  else
    match policy with
    | .undefined => .ok .undefined
    | .abort => .error (.noSolutionAborts label)
    | .dropEntity =>
      if sample.isEmpty then .error (.noMeasurement label) else .error (.noSolution label)

/-- Mean that goes with a summary; an undefined summary has none. -/
def meanFor (sample : Sample) (summary : Summary) : Float :=
  if summary.isUndefined then Binary64.missing else sample.mean?.getD Binary64.missing

/-- Summaries and means in the order of the samples. -/
structure Resolved where
  summaries : OrderedMap Summary := ∅
  means : OrderedMap Float := ∅

/-- A fault while resolving, and whether it stops the run. -/
structure Unresolved where
  reason : Fault
  stopsRun : Bool

/-- Resolves samples one after the other, up to the first that has no summary. -/
def resolveSamples (d : Descriptor) (id : String) (acc : Resolved) :
    List (String × Sample) → Except Unresolved Resolved
  | [] => .ok acc
  | (label, sample) :: rest =>
    let policy := d.missingPolicy label
    match resolveSample label sample policy with
    | .ok summary =>
      let acc : Resolved := {
        summaries := acc.summaries.insert label summary
        means := acc.means.insert label (meanFor sample summary) }
      resolveSamples d id acc rest
    | .error fault =>
      .error {
        reason := (fault.withContext "entity" id).withContext "strategy" label
        stopsRun := fault.family = .undefinedResult ∧ policy = .abort }

/-- The comparisons whose two strategies both have a summary. -/
def compareAll (rules : List ComparisonRule) (summaries : OrderedMap Summary)
    (ideal : Option Float) (sentinel : Float) : SortedMap String Comparison :=
  rules.foldl (fun acc rule =>
    match summaries.find? rule.baseline, summaries.find? rule.candidate with
    | some baseline, some candidate =>
      acc.insert rule.name (baseline.compareWith candidate ideal sentinel)
    | _, _ => acc) ∅

/-- Summarises an entity; a fault is one that stops the run. -/
def Entity.summarize (e : Entity) (d : Descriptor) (sentinel : Float) :
    Except Fault EntityOutcome :=
  match resolveSamples d e.id {} e.samples.entries with
  | .ok resolved =>
    .ok (.kept {
      id := e.id
      discovery := e.discovery
      ideal := e.ideal
      summaries := resolved.summaries
      means := resolved.means
      scalars := e.scalars
      comparisons := compareAll d.comparisons resolved.summaries e.ideal sentinel })
  | .error unresolved =>
    if unresolved.stopsRun then .error unresolved.reason
    else .ok (.dropped e.id unresolved.reason)

end FigureData
