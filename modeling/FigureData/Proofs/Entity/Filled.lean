/-
  Cells that are filled for every entity that is kept.

  A cell is missing when its entity lacks the value: an ideal value that was not given, a
  strategy that may stay undefined, a comparison of such.  Which columns cannot be missing can
  be read off a descriptor (`Descriptor.fills`), and for entities whose measurements are finite
  or missing markers (`Entity.IsMeasured`) the reading is right.

  Proved:
  * `Entity.measured_summary`, `Entity.exists_finite_summary`: the summary under a label holds
    finite numbers, unless the sample is degraded and the policy leaves the strategy undefined.
  * `compareAll_spec`: comparisons of such strategies have a number as their ratio.
  * `Entity.isFilled_cellAt`: the cells that the descriptor fills are text or numbers.
-/
import FigureData.Dataset.Assembly
import FigureData.Proofs.Entity.Policies
import FigureData.Proofs.Statistics.Summary

namespace FigureData

open Binary64

/-! ## Cells -/

/-- Is the cell a text or a number? -/
def Cell.isFilled : Cell → Bool
  | .text _ => true
  | .number x => !x.isNaN
  | .missing => false

theorem Cell.isFilled_ofOption {x : Float} (h : x.isNaN = false) :
    (Cell.ofOption (some x)).isFilled = true := by
  rw [Cell.ofOption_some h]
  show (!x.isNaN) = true
  rw [h]
  rfl

/-! ## What a descriptor fills -/

namespace Descriptor

/-- Is this a declared strategy that may not stay undefined? -/
def measures (d : Descriptor) (label : String) : Bool :=
  (d.strategies.any fun s => s.label = label) && decide (d.missingPolicy label ≠ .undefined)

/-- Is the column filled in the row of every entity that is kept? -/
def fills (d : Descriptor) : Column → Bool
  | .id _ | .label _ | .rowIndex _ => true
  | .ideal _ => false
  | .scalar header => d.entityScalars.any fun declared => declared.1 = header
  | .stat _ label statistic => d.measures label && decide (statistic ≠ .mean)
  | .ratio header =>
    (d.comparisons.any fun rule => rule.name = header) &&
      d.comparisons.all fun rule => d.measures rule.baseline && d.measures rule.candidate
  | .position _ step => step.isFinite && decide (0 < magnitudeBits step)

end Descriptor

/-- An entity with a sample for every declared strategy, whose measurements are finite or
missing markers, and with a finite number for every declared scalar. -/
structure Entity.IsMeasured (d : Descriptor) (e : Entity) : Prop where
  samples : ∀ s ∈ d.strategies, ∃ sample, e.samples.find? s.label = some sample
  finite : ∀ x ∈ e.samples.entries, ∀ v ∈ x.2.values, v = missing ∨ v.isFinite = true
  scalars : ∀ declared ∈ d.entityScalars, ∃ x, e.scalars.find? declared.1 = some x ∧
    x.isFinite = true

/-! ## Comparisons -/

section Comparisons

variable {summaries : OrderedMap Summary} {sentinel : Float} {rules : List ComparisonRule}

/-- Both strategies of the comparison have summaries of finite numbers. -/
def ComparisonRule.IsMeasured (summaries : OrderedMap Summary) (rule : ComparisonRule) : Prop :=
  ∃ baseline candidate, summaries.find? rule.baseline = some baseline ∧
    summaries.find? rule.candidate = some candidate ∧ baseline.IsFinite ∧ candidate.IsFinite

theorem compareAll_append {rule : ComparisonRule} {baseline candidate : Summary}
    (hbaseline : summaries.find? rule.baseline = some baseline)
    (hcandidate : summaries.find? rule.candidate = some candidate) (ideal : Option Float) :
    compareAll (rules ++ [rule]) summaries ideal sentinel =
      (compareAll rules summaries ideal sentinel).insert rule.name
        (baseline.compareWith candidate ideal sentinel) := by
  unfold compareAll
  rw [List.foldl_append]
  simp only [List.foldl_cons, List.foldl_nil, hbaseline, hcandidate]

/-- Comparisons of summaries of finite numbers are there, with a number as their ratio. -/
theorem compareAll_spec (hs : 1.0 < sentinel) (ideal : Option Float)
    (hall : ∀ rule ∈ rules, rule.IsMeasured summaries) :
    ∀ rule ∈ rules, ∃ c, (compareAll rules summaries ideal sentinel).find? rule.name = some c ∧
      c.ratio.value.isNaN = false := by
  induction rules using List.reverseRecOn with
  | nil => simp
  | append_singleton rules last ih =>
    obtain ⟨hrules, hlast⟩ := List.forall_mem_append.1 hall
    obtain ⟨baseline, candidate, hbaseline, hcandidate, hb, hc⟩ := hlast last (List.mem_singleton_self _)
    intro rule hrule
    rw [compareAll_append hbaseline hcandidate, SortedMap.find?_insert]
    split_ifs with hname
    · exact ⟨_, rfl, MedianRatio.isNaN_between (hb.quantile .p50) (hc.quantile .p50) hs⟩
    · rcases List.mem_append.1 hrule with hrule | hrule
      · exact ih hrules rule hrule
      · rw [List.mem_singleton] at hrule
        exact absurd (congrArg ComparisonRule.name hrule) hname

end Comparisons

/-! ## Entities that are kept -/

section Kept

variable {d : Descriptor} {e : Entity} {sentinel : Float} {summary : EntitySummary}

/-- The summary that a kept entity has under a label: finite numbers where the sample is
complete, else an undefined one, which the policy has allowed. -/
theorem Entity.measured_summary (he : e.IsMeasured d)
    (h : e.summarize d sentinel = .ok (.kept summary)) {label : String} {sample : Sample}
    (hsample : e.samples.find? label = some sample) :
    ∃ m, summary.summaries.find? label = some m ∧
      if sample.isComplete then sample.summarize = .ok m ∧ m.IsFinite
      else d.missingPolicy label = .undefined ∧ m = .undefined := by
  have hmem := OrderedMap.find?_eq_some_iff.1 hsample
  obtain ⟨m, hm, hsummary⟩ := Entity.summary_of_kept h hmem
  refine ⟨m, hm, ?_⟩
  split_ifs at hsummary ⊢ with hcomplete
  · have hfinite := Sample.forall_of_isComplete hcomplete (he.finite _ hmem)
    exact ⟨hsummary, Sample.isFinite_summarize hfinite hsummary⟩
  · exact hsummary

/-- A strategy that may not stay undefined has a summary of finite numbers. -/
theorem Entity.exists_finite_summary (he : e.IsMeasured d)
    (h : e.summarize d sentinel = .ok (.kept summary)) {label : String}
    (hlabel : d.measures label = true) :
    ∃ m, summary.summaries.find? label = some m ∧ m.IsFinite := by
  unfold Descriptor.measures at hlabel
  rw [Bool.and_eq_true, List.any_eq_true, decide_eq_true_eq] at hlabel
  obtain ⟨⟨s, hs, hname⟩, hpolicy⟩ := hlabel
  obtain rfl : s.label = label := of_decide_eq_true hname
  obtain ⟨sample, hsample⟩ := he.samples s hs
  obtain ⟨m, hm, hsummary⟩ := Entity.measured_summary he h hsample
  split_ifs at hsummary
  · exact ⟨m, hm, hsummary.2⟩
  · exact absurd hsummary.1 hpolicy

theorem Entity.isFilled_stat (he : e.IsMeasured d)
    (h : e.summarize d sentinel = .ok (.kept summary)) {label : String}
    (hlabel : d.measures label = true) {statistic : Statistic} (hmean : statistic ≠ .mean) :
    (Cell.ofOption (summary.statistic? label statistic)).isFilled = true := by
  obtain ⟨m, hm, hfinite⟩ := Entity.exists_finite_summary he h hlabel
  unfold EntitySummary.statistic?
  cases statistic with
  | mean => exact absurd rfl hmean
  | quantile p =>
    simp only [hm, Option.map_some]
    exact Cell.isFilled_ofOption (isNaN_of_isFinite (hfinite.quantile p))
  | whiskerLow =>
    simp only [hm, Option.map_some]
    exact Cell.isFilled_ofOption (isNaN_of_isFinite hfinite.whiskerLow)
  | whiskerHigh =>
    simp only [hm, Option.map_some]
    exact Cell.isFilled_ofOption (isNaN_of_isFinite hfinite.whiskerHigh)

theorem Entity.isFilled_ratio (hs : 1.0 < sentinel) (he : e.IsMeasured d)
    (h : e.summarize d sentinel = .ok (.kept summary)) {header : String}
    (hheader : d.fills (.ratio header) = true) :
    (summary.cell (.ratio header)).isFilled = true := by
  unfold Descriptor.fills at hheader
  rw [Bool.and_eq_true, List.any_eq_true, List.all_eq_true] at hheader
  obtain ⟨⟨rule, hrule, hname⟩, hmeasured⟩ := hheader
  obtain rfl : rule.name = header := of_decide_eq_true hname
  have hall : ∀ rule ∈ d.comparisons, rule.IsMeasured summary.summaries := by
    intro rule hrule
    have hboth := hmeasured rule hrule
    rw [Bool.and_eq_true] at hboth
    obtain ⟨b, hb, hbfin⟩ := Entity.exists_finite_summary he h hboth.1
    obtain ⟨c, hc, hcfin⟩ := Entity.exists_finite_summary he h hboth.2
    exact ⟨b, c, hb, hc, hbfin, hcfin⟩
  obtain ⟨c, hc, hnumber⟩ := compareAll_spec hs e.ideal hall rule hrule
  show (Cell.ofOption ((summary.comparisons.find? rule.name).map
    fun c => c.ratio.value)).isFilled = true
  rw [(Entity.summarize_kept_spec h).2, hc]
  exact Cell.isFilled_ofOption hnumber

/-- The cells that the descriptor fills are texts or numbers, at every position. -/
theorem Entity.isFilled_cellAt (hs : 1.0 < sentinel) (he : e.IsMeasured d)
    (h : e.summarize d sentinel = .ok (.kept summary)) {column : Column}
    (hcolumn : d.fills column = true) (index : Nat) :
    (summary.cellAt index column).isFilled = true := by
  cases column with
  | id header => rfl
  | label header => rfl
  | ideal header => cases hcolumn
  | scalar header =>
    obtain ⟨declared, hdeclared, hname⟩ := List.any_eq_true.1 hcolumn
    obtain rfl : declared.1 = header := of_decide_eq_true hname
    obtain ⟨x, hx, hfinite⟩ := he.scalars declared hdeclared
    show (Cell.ofOption (summary.scalars.find? declared.1)).isFilled = true
    rw [(Entity.summarize_kept_fields h).2.2, hx]
    exact Cell.isFilled_ofOption (isNaN_of_isFinite hfinite)
  | stat header label statistic =>
    unfold Descriptor.fills at hcolumn
    rw [Bool.and_eq_true, decide_eq_true_eq] at hcolumn
    exact Entity.isFilled_stat he h hcolumn.1 hcolumn.2
  | ratio header => exact Entity.isFilled_ratio hs he h hcolumn
  | rowIndex header =>
    show (!(ofNat index).isNaN) = true
    rw [isNaN_ofNat]
    rfl
  | position header step =>
    unfold Descriptor.fills at hcolumn
    rw [Bool.and_eq_true, decide_eq_true_eq] at hcolumn
    show (!(ofNat index * step).isNaN) = true
    rw [isNaN_mul (isNaN_ofNat index) hcolumn.1 hcolumn.2]
    rfl

end Kept

end FigureData
