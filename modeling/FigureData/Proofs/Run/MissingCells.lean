/-
  Where the cells of a finished run may be missing.

  Of the evaluations with declared strategies each has at most one column that may be left
  open: the ideal value, which a network need not have, or the median of the one strategy that
  may stay undefined.  The median is missing exactly for the networks whose sample is empty or
  holds a measurement without a solution.

  Proved:
  * `missing_random_iff`: the median of a strategy that may stay undefined, in terms of the file.
  * `missing_only_where_allowed`: all other cells are a text or a number.
-/
import FigureData.Proofs.Run.LastFiles

namespace FigureData

open Extraction Outcome

/-- Headers of the columns with cells that may be missing. -/
def Evaluation.mayLack : Evaluation → List String
  | .costComparison _ => ["optimal"]
  | .costBoxplot => ["ideal"]
  | .schedulingTime => ["random"]
  | _ => []

section Strategies

variable {e : Evaluation} (hstrategies : e.descriptor.strategies ≠ [])

include hstrategies

/-- Evaluations with declared strategies extract by them. -/
theorem ofDescriptor_of_strategies :
    Extractor.ofDescriptor e.descriptor = .strategies (.ofDescriptor e.descriptor) ∅ := by
  cases e with
  | errorRate => exact absurd rfl hstrategies
  | complexity => exact absurd rfl hstrategies
  | classification => exact absurd rfl hstrategies
  | packetLoss => exact absurd rfl hstrategies
  | costBoxplot => rfl
  | schedulingTime => rfl
  | costComparison number => rfl
  | stateExploration => rfl

/-- Their descriptors fill all columns but those excepted. -/
theorem fills_of_strategies :
    (e.descriptor.columns.all fun column =>
      decide (column.header ∈ e.mayLack) || e.descriptor.fills column) = true := by
  cases e with
  | errorRate => exact absurd rfl hstrategies
  | complexity => exact absurd rfl hstrategies
  | classification => exact absurd rfl hstrategies
  | packetLoss => exact absurd rfl hstrategies
  | costBoxplot => decide +kernel
  | schedulingTime => decide +kernel
  | costComparison number =>
    show ((Descriptor.costComparison 6).columns.all fun column =>
      decide (column.header ∈ ["optimal"]) || (Descriptor.costComparison 6).fills column) = true
    decide +kernel
  | stateExploration => decide +kernel

end Strategies

/-! ## The random baseline of the scheduling times -/

/-- Where the times of the random baseline stand. -/
def randomTimes : SampleSource := .recordField "random_result" "time"

/-- The median of a kept entity is missing exactly when the sample is degraded. -/
theorem missing_median_iff {d : Descriptor} {entity : Entity} {sentinel : Float}
    {summary : EntitySummary} (h : entity.summarize d sentinel = .ok (.kept summary))
    (hentity : entity.IsMeasured d) {label : String} {sample : Sample}
    (hsample : entity.samples.find? label = some sample) (index : Nat) :
    summary.cellAt index (.median label) = .missing ↔ sample.isComplete = false := by
  obtain ⟨m, hm, hsummary⟩ := Entity.measured_summary hentity h hsample
  have hcell : summary.cellAt index (.median label) = Cell.ofOption (some m.median) := by
    show Cell.ofOption ((summary.summaries.find? label).map fun s => s.median) = _
    rw [hm, Option.map_some]
  rw [hcell]
  split_ifs at hsummary with hcomplete
  · have hmedian : m.median.isFinite = true := hsummary.2.quantile .p50
    rw [Cell.ofOption_some (Binary64.isNaN_of_isFinite hmedian)]
    exact iff_of_false Cell.noConfusion (ne_of_eq_of_ne hcomplete (by decide))
  · rw [hsummary.2]
    exact iff_of_true rfl (Bool.eq_false_iff.2 hcomplete)

/-- The median of the random baseline is missing exactly when its times in the file of the row
are none, or one of them is null. -/
theorem missing_random_iff {ctx : Context} {t : FileTree} {c : Collected}
    (h : collect ctx .schedulingTime t = .ok c) :
    ∀ row ∈ c.dataset.rows, ∃ r j, lastAccepted? ctx .schedulingTime t row.id = some r ∧
      r.document = .ok j ∧
      (c.dataset.cell? row "random" = some .missing ↔ randomTimes.isDegradedIn j) := by
  obtain ⟨hcolumns, intake, entities, htake, hrows⟩ := exists_kept_of_mem_rows rfl h
  intro row hrow
  obtain ⟨entity, hentity, s, index, hsummary, rfl⟩ := hrows row hrow
  obtain ⟨r, j, sample, hlast, hj, hsample, hread⟩ :=
    exists_lastAccepted rfl (by decide) (by decide) htake hentity
      (s := { label := "random", source := randomTimes, missing := .undefined }) (by decide)
  refine ⟨r, j, ?_, hj, ?_⟩
  · rw [show (s.rowAt Evaluation.schedulingTime.descriptor.columns index).id = s.id from rfl,
      (Entity.summarize_kept_fields hsummary).1]
    exact hlast
  · rw [Dataset.cell?_rowAt (.median "random") hcolumns rfl, Option.some.injEq,
      missing_median_iff hsummary (isMeasured_of_takeIn rfl htake entity hentity) hsample]
    exact isComplete_eq_false_iff (isFinite_of_inputItems
      (mem_inputItems_of_accepted (lastAccepted?_mem hlast).1) hj) hread

/-! ## Missing cells -/

/-- Missing cells appear only where a policy allows them: the tables of the evaluations with
declared strategies have a text or a number everywhere but in the column excepted, and that of
the scheduling times lacks a number exactly where the times of the random baseline lack one. -/
theorem missing_only_where_allowed {config : Config} {source : ResultSet} {ctx : Context}
    {e : Evaluation} {t : FileTree} {c : Collected}
    (hctx : Context.make config source = .ok ctx) (hstrategies : e.descriptor.strategies ≠ [])
    (h : collect ctx e t = .ok c) :
    c.dataset.columns = e.descriptor.headers ∧ c.dataset.IsFilled e.mayLack ∧
      (e = .schedulingTime → ∀ row ∈ c.dataset.rows, ∃ r j,
        lastAccepted? ctx e t row.id = some r ∧ r.document = .ok j ∧
        (c.dataset.cell? row "random" = some .missing ↔ randomTimes.isDegradedIn j)) := by
  have hne : e.descriptor.strategies.isEmpty = false := by
    rw [Bool.eq_false_iff, ne_eq, List.isEmpty_iff]
    exact hstrategies
  refine ⟨(exists_kept_of_mem_rows hne h).1, ?_, ?_⟩
  · exact isFilled_of_collect (ofDescriptor_of_strategies hstrategies) hne
      (one_lt_ratioSentinel hctx) (fills_of_strategies hstrategies) h
  · rintro rfl
    exact missing_random_iff h

/-- Results of a network for which the random baseline has found no solution. -/
def unsolvedRun : FileTree :=
  resultTree .schedulingTime [("A.json", .ofText ("\x7b\"num_commands\":3," ++
    "\"random_result\":[\x7b\"time\":null\x7d],\"tree_result\":[\x7b\"time\":2\x7d]," ++
    "\"strategy_result\":[\x7b\"time\":1\x7d]\x7d"))]

theorem unsolvedRun_missing :
    ∃ c, collect freshContext .schedulingTime unsolvedRun = .ok c ∧ c.dataset.rows.length = 1 ∧
      c.dataset.IsFilled ["random"] ∧
      ∀ row ∈ c.dataset.rows, ∃ r j, lastAccepted? freshContext .schedulingTime unsolvedRun row.id =
        some r ∧ r.document = .ok j ∧ randomTimes.isDegradedIn j := by
  have hctx : Context.make { root := "r" } .fresh = .ok freshContext := rfl
  have hrun : (collect freshContext .schedulingTime unsolvedRun).toOption.any
      (fun c => decide (c.dataset.rows.length = 1) && c.dataset.rows.all fun row =>
        decide (c.dataset.cell? row "random" = some .missing)) = true := by
    decide +kernel
  obtain ⟨c, hcollect, hrows⟩ := exists_of_any hrun
  rw [Bool.and_eq_true, decide_eq_true_eq, List.all_eq_true] at hrows
  obtain ⟨-, hfilled, hrandom⟩ := missing_only_where_allowed hctx (by decide) hcollect
  refine ⟨c, hcollect, hrows.1, hfilled, ?_⟩
  intro row hrow
  obtain ⟨r, j, hlast, hj, hmissing⟩ := hrandom rfl row hrow
  exact ⟨r, j, hlast, hj, hmissing.1 (of_decide_eq_true (hrows.2 row hrow))⟩

end FigureData
