/-
  What a kept entity brings along.

  Every sample is settled on its own, so whether an entity is kept does not depend on the order
  of its samples.  Comparisons are kept by name: where several rules of a descriptor have one
  name, the last one whose two strategies are measured overwrites the others.

  Proved:
  * `find?_compareAll`: the comparison under a name is that of the last rule for it.
  * `MedianRatio.rule_eq_undefined_iff`: a ratio is undefined exactly when a median is.
  * `Entity.exists_kept_iff`: an entity is kept exactly when its degraded samples may be undefined.
  * `Entity.keptAs_of_kept`: what is kept of each sample, and what is compared.
  * `kept_means_complete`: all of this, for every descriptor and entity.
-/
import FigureData.Descriptor.Catalogue
import FigureData.Proofs.Entity.Policies
import FigureData.Proofs.Statistics.QuantileRanks

namespace FigureData

/-! ## Rules -/

/-- Are both strategies of a rule among the labels? -/
def ComparisonRule.appliesTo (rule : ComparisonRule) (labels : List String) : Bool :=
  decide (rule.baseline ∈ labels) && decide (rule.candidate ∈ labels)

/-- The last rule for a name whose strategies are among the labels. -/
def lastRule? (rules : List ComparisonRule) (labels : List String) (name : String) :
    Option ComparisonRule :=
  rules.reverse.find? fun rule => decide (rule.name = name) && rule.appliesTo labels

theorem lastRule?_append_singleton (rules : List ComparisonRule) (rule : ComparisonRule)
    (labels : List String) (name : String) :
    lastRule? (rules ++ [rule]) labels name =
      if rule.name = name ∧ rule.appliesTo labels = true then some rule
      else lastRule? rules labels name := by
  unfold lastRule?
  rw [List.reverse_append, List.reverse_singleton, List.singleton_append, List.find?_cons]
  by_cases h : rule.name = name ∧ rule.appliesTo labels = true
  · rw [if_pos h, h.2, decide_eq_true h.1]
    rfl
  · rw [if_neg h]
    have hfalse : (decide (rule.name = name) && rule.appliesTo labels) = false := by
      rwa [Bool.eq_false_iff, Ne, Bool.and_eq_true, decide_eq_true_eq]
    rw [hfalse]

theorem lastRule?_eq_some {rules : List ComparisonRule} {labels : List String} {name : String}
    {rule : ComparisonRule} (h : lastRule? rules labels name = some rule) :
    rule ∈ rules ∧ rule.name = name ∧ rule.baseline ∈ labels ∧ rule.candidate ∈ labels := by
  have hmem := List.mem_reverse.1 (List.mem_of_find?_eq_some h)
  have hfound := List.find?_some h
  unfold ComparisonRule.appliesTo at hfound
  rw [Bool.and_eq_true, Bool.and_eq_true, decide_eq_true_eq, decide_eq_true_eq,
    decide_eq_true_eq] at hfound
  exact ⟨hmem, hfound⟩

/-- A name has a rule exactly when the strategies of some rule for it are among the labels. -/
theorem exists_lastRule?_iff {rules : List ComparisonRule} {labels : List String} {name : String} :
    (∃ rule, lastRule? rules labels name = some rule) ↔
      ∃ rule ∈ rules, rule.name = name ∧ rule.baseline ∈ labels ∧ rule.candidate ∈ labels := by
  unfold lastRule? ComparisonRule.appliesTo
  rw [← Option.isSome_iff_exists, List.find?_isSome]
  simp only [List.mem_reverse, Bool.and_eq_true, decide_eq_true_eq]

/-- Where names are distinct, a rule is the last one for its name. -/
theorem lastRule?_of_distinct {rules : List ComparisonRule} {labels : List String}
    (hdistinct : (rules.map ComparisonRule.name).Nodup) {rule : ComparisonRule}
    (hrule : rule ∈ rules) (hbaseline : rule.baseline ∈ labels)
    (hcandidate : rule.candidate ∈ labels) : lastRule? rules labels rule.name = some rule := by
  obtain ⟨last, hlast⟩ := exists_lastRule?_iff.2 ⟨rule, hrule, rfl, hbaseline, hcandidate⟩
  obtain ⟨hmem, hname, -⟩ := lastRule?_eq_some hlast
  obtain rfl := List.inj_on_of_nodup_map hdistinct hmem hrule hname
  exact hlast

/-! ## Comparisons -/

/-- What a rule compares, when both strategies have a summary. -/
def ComparisonRule.compare? (rule : ComparisonRule) (summaries : OrderedMap Summary)
    (ideal : Option Float) (sentinel : Float) : Option Comparison :=
  (summaries.find? rule.baseline).bind fun baseline =>
    (summaries.find? rule.candidate).map fun candidate =>
      baseline.compareWith candidate ideal sentinel

section Compare

variable {summaries : OrderedMap Summary} {ideal : Option Float} {sentinel : Float}

theorem ComparisonRule.appliesTo_iff {rule : ComparisonRule} :
    rule.appliesTo summaries.keys = true ↔
      ∃ baseline candidate, summaries.find? rule.baseline = some baseline ∧
        summaries.find? rule.candidate = some candidate := by
  unfold ComparisonRule.appliesTo
  rw [Bool.and_eq_true, decide_eq_true_eq, decide_eq_true_eq]
  constructor
  · rintro ⟨hbaseline, hcandidate⟩
    obtain ⟨baseline, hbaseline⟩ := OrderedMap.exists_find? hbaseline
    obtain ⟨candidate, hcandidate⟩ := OrderedMap.exists_find? hcandidate
    exact ⟨baseline, candidate, hbaseline, hcandidate⟩
  · rintro ⟨baseline, candidate, hbaseline, hcandidate⟩
    exact ⟨List.mem_map_of_mem (OrderedMap.find?_eq_some_iff.1 hbaseline),
      List.mem_map_of_mem (OrderedMap.find?_eq_some_iff.1 hcandidate)⟩

theorem ComparisonRule.compare?_eq_some_iff {rule : ComparisonRule} {c : Comparison} :
    rule.compare? summaries ideal sentinel = some c ↔
      ∃ baseline candidate, summaries.find? rule.baseline = some baseline ∧
        summaries.find? rule.candidate = some candidate ∧
        baseline.compareWith candidate ideal sentinel = c := by
  unfold ComparisonRule.compare?
  simp only [Option.bind_eq_some_iff, Option.map_eq_some_iff]
  constructor
  · rintro ⟨baseline, hbaseline, candidate, hcandidate, hc⟩
    exact ⟨baseline, candidate, hbaseline, hcandidate, hc⟩
  · rintro ⟨baseline, candidate, hbaseline, hcandidate, hc⟩
    exact ⟨baseline, hbaseline, candidate, hcandidate, hc⟩

theorem compareAll_append_singleton (rules : List ComparisonRule) (rule : ComparisonRule) :
    compareAll (rules ++ [rule]) summaries ideal sentinel =
      match rule.compare? summaries ideal sentinel with
      | some c => (compareAll rules summaries ideal sentinel).insert rule.name c
      | none => compareAll rules summaries ideal sentinel := by
  unfold compareAll ComparisonRule.compare?
  rw [List.foldl_append, List.foldl_cons, List.foldl_nil]
  cases summaries.find? rule.baseline with
  | none => rfl
  | some baseline =>
    cases summaries.find? rule.candidate with
    | none => rfl
    | some candidate => rfl

/-- The comparison under a name is that of the last rule for it whose strategies both have a
summary. -/
theorem find?_compareAll (rules : List ComparisonRule) (name : String) :
    (compareAll rules summaries ideal sentinel).find? name =
      (lastRule? rules summaries.keys name).bind fun rule =>
        rule.compare? summaries ideal sentinel := by
  induction rules using List.reverseRecOn with
  | nil => rfl
  | append_singleton rules rule ih =>
    rw [compareAll_append_singleton, lastRule?_append_singleton]
    cases hc : rule.compare? summaries ideal sentinel with
    | none =>
      have hnot : ¬(rule.name = name ∧ rule.appliesTo summaries.keys = true) := by
        rintro ⟨-, happlies⟩
        obtain ⟨baseline, candidate, hbaseline, hcandidate⟩ :=
          ComparisonRule.appliesTo_iff.1 happlies
        rw [ComparisonRule.compare?_eq_some_iff.2
          ⟨baseline, candidate, hbaseline, hcandidate, rfl⟩] at hc
        cases hc
      rw [if_neg hnot]
      exact ih
    | some c =>
      obtain ⟨baseline, candidate, hbaseline, hcandidate, -⟩ :=
        ComparisonRule.compare?_eq_some_iff.1 hc
      have happlies := ComparisonRule.appliesTo_iff.2 ⟨baseline, candidate, hbaseline, hcandidate⟩
      by_cases hname : rule.name = name
      · rw [if_pos ⟨hname, happlies⟩, Option.bind_some, hc, ← hname]
        exact SortedMap.find?_insert_self ..
      · rw [if_neg fun h => hname h.1, ← ih]
        exact SortedMap.find?_insert_of_ne _ _ fun h => hname h.symm

end Compare

/-- A ratio is undefined exactly when one of its medians is. -/
theorem MedianRatio.rule_eq_undefined_iff {baseline candidate sentinel : Float} :
    (between baseline candidate sentinel).rule = .undefined ↔
      baseline.isNaN = true ∨ candidate.isNaN = true := by
  unfold between
  rw [← Bool.or_eq_true]
  split_ifs with hnan
  · exact iff_of_true rfl hnan
  · exact iff_of_false (by decide) hnan
  · exact iff_of_false (by decide) hnan
  · exact iff_of_false (by decide) hnan
  · exact iff_of_false (by decide) hnan

/-! ## Samples -/

/-- The summary of a complete sample is not the undefined one. -/
theorem Sample.isUndefined_of_summarize {s : Sample} {m : Summary} (h : s.summarize = .ok m) :
    m.isUndefined = false := by
  have hcomplete := Sample.isComplete_of_summarize h
  have hne := sort_ne_nil (Sample.isComplete_iff.1 hcomplete).1
  rw [Sample.summarize_of_isComplete hcomplete] at h
  exact (Summary.isNaN_ofSorted (Sample.isNaN_of_mem_sort hcomplete) hne h).1 .p50

/-- A single measurement is its own median. -/
theorem Sample.median_singleton {x : Float} {m : Summary} (h : (Sample.mk [x]).summarize = .ok m) :
    m.median = x := by
  rw [Sample.summarize_of_isComplete (Sample.isComplete_of_summarize h)] at h
  have hmedian := (Summary.numbers_ofSorted h).1 .p50
  rw [show Binary64.sort [x] = [x] from List.mergeSort_singleton x] at hmedian
  have hbelow : rankBelow (position Probability.p50.value 1) = 0 := by decide
  have habove : rankAbove (position Probability.p50.value 1) = 0 := by decide
  unfold percentile? at hmedian
  rw [if_neg (by simp)] at hmedian
  simp only [List.length_singleton, hbelow, habove] at hmedian
  exact (Option.some.inj hmedian).symm

theorem Sample.exists_mean? {s : Sample} (h : s.isComplete = true) :
    ∃ mean, s.mean? = some mean := by
  refine Option.ne_none_iff_exists'.1 fun hnone => ?_
  exact (Sample.isComplete_iff.1 h).1 ((Sample.mean?_eq_none_iff s).1 hnone)

/-! ## Kept entities -/

/-- What `summary` keeps of an entity. -/
structure Entity.KeptAs (e : Entity) (d : Descriptor) (sentinel : Float)
    (summary : EntitySummary) : Prop where
  fields : summary.id = e.id ∧ summary.discovery = e.discovery ∧ summary.ideal = e.ideal ∧
    summary.scalars = e.scalars
  /-- Summaries and means have the labels of the samples, in their order. -/
  labels : summary.summaries.keys = e.samples.keys ∧ summary.means.keys = e.samples.keys
  complete : ∀ label sample, e.samples.find? label = some sample → sample.isComplete = true →
    ∃ m mean, sample.summarize = .ok m ∧ sample.mean? = some mean ∧
      summary.summaries.find? label = some m ∧ summary.means.find? label = some mean
  degraded : ∀ label sample, e.samples.find? label = some sample → sample.isComplete = false →
    summary.summaries.find? label = some .undefined ∧
      summary.means.find? label = some Binary64.missing
  /-- There is a comparison under the names of the rules whose strategies are both measured. -/
  compared_iff : ∀ name, (∃ c, summary.comparisons.find? name = some c) ↔
    ∃ rule ∈ d.comparisons, rule.name = name ∧ rule.baseline ∈ e.samples.keys ∧
      rule.candidate ∈ e.samples.keys
  /-- It is that of the last of these rules. -/
  comparison : ∀ name rule, lastRule? d.comparisons e.samples.keys name = some rule →
    ∃ baseline candidate, summary.summaries.find? rule.baseline = some baseline ∧
      summary.summaries.find? rule.candidate = some candidate ∧
      summary.comparisons.find? name =
        some (baseline.compareWith candidate e.ideal sentinel)
  /-- Where names are distinct, that is a comparison for each of these rules. -/
  own_comparison : (d.comparisons.map ComparisonRule.name).Nodup → ∀ rule ∈ d.comparisons,
    rule.baseline ∈ e.samples.keys → rule.candidate ∈ e.samples.keys →
    ∃ baseline candidate, summary.summaries.find? rule.baseline = some baseline ∧
      summary.summaries.find? rule.candidate = some candidate ∧
      summary.comparisons.find? rule.name =
        some (baseline.compareWith candidate e.ideal sentinel)
  /-- The ratio of a comparison is undefined exactly when one of its two samples is degraded. -/
  undefined_iff : ∀ name rule c, lastRule? d.comparisons e.samples.keys name = some rule →
    summary.comparisons.find? name = some c →
    (c.ratio.rule = .undefined ↔
      ∃ label ∈ [rule.baseline, rule.candidate], ∃ sample, e.samples.find? label = some sample ∧
        sample.isComplete = false)

section Kept

variable {d : Descriptor} {e : Entity} {sentinel : Float} {summary : EntitySummary}

/-- An entity is kept exactly when its degraded samples may be undefined. -/
theorem Entity.exists_kept_iff : (∃ summary, e.summarize d sentinel = .ok (.kept summary)) ↔
    ∀ label sample, e.samples.find? label = some sample →
      sample.isComplete = true ∨ d.missingPolicy label = .undefined := by
  rw [Entity.summarize_kept_iff]
  unfold Entity.decisive?
  rw [List.find?_eq_none]
  constructor
  · intro h label sample hfind
    have hnot := h _ (OrderedMap.find?_eq_some_iff.1 hfind)
    rw [Descriptor.decides_iff] at hnot
    by_contra hor
    rw [not_or] at hor
    exact hnot ⟨by unfold Sample.isDegraded; rw [Bool.eq_false_iff.2 hor.1]; rfl, hor.2⟩
  · rintro h ⟨label, sample⟩ hmem hdecides
    obtain ⟨hdegraded, hpolicy⟩ := Descriptor.decides_iff.1 hdecides
    rcases h label sample (OrderedMap.find?_eq_some_iff.2 hmem) with hcomplete | hundefined
    · unfold Sample.isDegraded at hdegraded
      rw [hcomplete] at hdegraded
      cases hdegraded
    · exact hpolicy hundefined

section Summary

variable (h : e.summarize d sentinel = .ok (.kept summary))
include h

/-- What stands under the label of a sample. -/
theorem Entity.found_of_kept {label : String} {sample : Sample}
    (hfind : e.samples.find? label = some sample) :
    ∃ m, summary.summaries.find? label = some m ∧
      summary.means.find? label = some (meanFor sample m) ∧
      (sample.isComplete = true → sample.summarize = .ok m) ∧
      (sample.isComplete = false → m = .undefined) := by
  have hmem := OrderedMap.find?_eq_some_iff.1 hfind
  obtain ⟨m, hm, hsettled⟩ := Entity.summary_of_kept h hmem
  obtain ⟨r, hr, rfl⟩ := Entity.resolved_of_kept h
  obtain ⟨m', hm', hmean, -⟩ := find?_resolveSamples e.samples.nodup hr _ hmem
  obtain rfl := Option.some.inj (hm.symm.trans hm')
  refine ⟨m, hm, hmean, ?_, ?_⟩
  · intro hcomplete
    rwa [if_pos hcomplete] at hsettled
  · intro hdegraded
    rw [if_neg (by rw [hdegraded]; decide)] at hsettled
    exact hsettled.2

theorem Entity.keys_of_kept :
    summary.summaries.keys = e.samples.keys ∧ summary.means.keys = e.samples.keys := by
  obtain ⟨r, hr, rfl⟩ := Entity.resolved_of_kept h
  have hsame : ({} : Resolved).means.keys = ({} : Resolved).summaries.keys := rfl
  obtain ⟨hkeys, hmeans⟩ := keys_resolveSamples hsame e.samples.nodup hr
  exact ⟨hkeys, hmeans.trans hkeys⟩

theorem Entity.find?_comparisons_of_kept (name : String) :
    summary.comparisons.find? name =
      (lastRule? d.comparisons e.samples.keys name).bind fun rule =>
        rule.compare? summary.summaries e.ideal sentinel := by
  rw [(Entity.summarize_kept_spec h).2, find?_compareAll, (Entity.keys_of_kept h).1]

/-- The summary under a label is undefined exactly when the sample is degraded. -/
theorem Entity.isUndefined_of_kept {label : String} {sample : Sample} {m : Summary}
    (hfind : e.samples.find? label = some sample) (hm : summary.summaries.find? label = some m) :
    m.isUndefined = true ↔ sample.isComplete = false := by
  obtain ⟨m', hm', -, hcomplete, hdegraded⟩ := Entity.found_of_kept h hfind
  obtain rfl := Option.some.inj (hm.symm.trans hm')
  cases hs : sample.isComplete with
  | true =>
    rw [Sample.isUndefined_of_summarize (hcomplete hs)]
    exact iff_of_false (by decide) (by decide)
  | false =>
    rw [hdegraded hs]
    exact iff_of_true rfl rfl

theorem Entity.comparison_of_kept {name : String} {rule : ComparisonRule}
    (hrule : lastRule? d.comparisons e.samples.keys name = some rule) :
    ∃ baseline candidate, summary.summaries.find? rule.baseline = some baseline ∧
      summary.summaries.find? rule.candidate = some candidate ∧
      summary.comparisons.find? name =
        some (baseline.compareWith candidate e.ideal sentinel) := by
  obtain ⟨-, -, hbaseline, hcandidate⟩ := lastRule?_eq_some hrule
  rw [← (Entity.keys_of_kept h).1] at hbaseline hcandidate
  obtain ⟨baseline, hbaseline⟩ := OrderedMap.exists_find? hbaseline
  obtain ⟨candidate, hcandidate⟩ := OrderedMap.exists_find? hcandidate
  refine ⟨baseline, candidate, hbaseline, hcandidate, ?_⟩
  rw [Entity.find?_comparisons_of_kept h, hrule, Option.bind_some]
  exact ComparisonRule.compare?_eq_some_iff.2 ⟨_, _, hbaseline, hcandidate, rfl⟩

theorem Entity.undefined_iff_of_kept {name : String} {rule : ComparisonRule} {c : Comparison}
    (hrule : lastRule? d.comparisons e.samples.keys name = some rule)
    (hc : summary.comparisons.find? name = some c) :
    c.ratio.rule = .undefined ↔
      ∃ label ∈ [rule.baseline, rule.candidate], ∃ sample, e.samples.find? label = some sample ∧
        sample.isComplete = false := by
  obtain ⟨-, -, hbaseline, hcandidate⟩ := lastRule?_eq_some hrule
  obtain ⟨s, hs⟩ := OrderedMap.exists_find? hbaseline
  obtain ⟨t, ht⟩ := OrderedMap.exists_find? hcandidate
  obtain ⟨baseline, candidate, hbaseline, hcandidate, hfound⟩ := Entity.comparison_of_kept h hrule
  obtain rfl := Option.some.inj (hc.symm.trans hfound)
  have hundefined : (baseline.compareWith candidate e.ideal sentinel).ratio.rule = .undefined ↔
      baseline.isUndefined = true ∨ candidate.isUndefined = true :=
    MedianRatio.rule_eq_undefined_iff
  rw [hundefined, Entity.isUndefined_of_kept h hs hbaseline,
    Entity.isUndefined_of_kept h ht hcandidate]
  simp only [List.mem_cons, List.not_mem_nil, or_false, exists_eq_or_imp, exists_eq_left, hs, ht,
    Option.some.injEq, exists_eq_left']

theorem Entity.keptAs_of_kept : e.KeptAs d sentinel summary where
  fields := by
    obtain ⟨r, -, rfl⟩ := Entity.resolved_of_kept h
    exact ⟨rfl, rfl, rfl, rfl⟩
  labels := Entity.keys_of_kept h
  complete label sample hfind hs := by
    obtain ⟨m, hm, hmean, hcomplete, -⟩ := Entity.found_of_kept h hfind
    obtain ⟨mean, hmean?⟩ := Sample.exists_mean? hs
    refine ⟨m, mean, hcomplete hs, hmean?, hm, ?_⟩
    unfold meanFor at hmean
    rwa [Sample.isUndefined_of_summarize (hcomplete hs), hmean?] at hmean
  degraded label sample hfind hs := by
    obtain ⟨m, hm, hmean, -, hdegraded⟩ := Entity.found_of_kept h hfind
    rw [hdegraded hs] at hm hmean
    exact ⟨hm, hmean⟩
  compared_iff name := by
    rw [← exists_lastRule?_iff]
    constructor
    · rintro ⟨c, hc⟩
      rw [Entity.find?_comparisons_of_kept h] at hc
      obtain ⟨rule, hrule, -⟩ := Option.bind_eq_some_iff.1 hc
      exact ⟨rule, hrule⟩
    · rintro ⟨rule, hrule⟩
      obtain ⟨baseline, candidate, -, -, hc⟩ := Entity.comparison_of_kept h hrule
      exact ⟨_, hc⟩
  comparison _ _ hrule := Entity.comparison_of_kept h hrule
  own_comparison hdistinct _ hrule hbaseline hcandidate :=
    Entity.comparison_of_kept h (lastRule?_of_distinct hdistinct hrule hbaseline hcandidate)
  undefined_iff _ _ _ hrule hc := Entity.undefined_iff_of_kept h hrule hc

end Summary

/-- Whether an entity is kept does not depend on the order of its samples. -/
theorem Entity.exists_kept_congr {other : Entity}
    (hperm : other.samples.entries.Perm e.samples.entries) :
    (∃ summary, other.summarize d sentinel = .ok (.kept summary)) ↔
      ∃ summary, e.summarize d sentinel = .ok (.kept summary) := by
  have hfind : ∀ label sample,
      other.samples.find? label = some sample ↔ e.samples.find? label = some sample := by
    intro label sample
    rw [OrderedMap.find?_eq_some_iff, OrderedMap.find?_eq_some_iff]
    exact hperm.mem_iff
  simp only [Entity.exists_kept_iff, hfind]

end Kept

/-- An entity is kept exactly when its degraded samples may be undefined, in whatever order they
come, and it keeps of each sample and of each comparison what belongs to it. -/
theorem kept_means_complete (d : Descriptor) (sentinel : Float) (e : Entity) :
    ((∃ summary, e.summarize d sentinel = .ok (.kept summary)) ↔
      ∀ label sample, e.samples.find? label = some sample →
        sample.isComplete = true ∨ d.missingPolicy label = .undefined) ∧
    (∀ other : Entity, other.samples.entries.Perm e.samples.entries →
      ((∃ summary, other.summarize d sentinel = .ok (.kept summary)) ↔
        ∃ summary, e.summarize d sentinel = .ok (.kept summary))) ∧
    ∀ summary, e.summarize d sentinel = .ok (.kept summary) → e.KeptAs d sentinel summary :=
  ⟨Entity.exists_kept_iff, fun _ => Entity.exists_kept_congr, fun _ => Entity.keptAs_of_kept⟩

/-! ## Two rules with one name -/

/-- A cost comparison with two rules for the fraction. -/
def twiceCompared : Descriptor :=
  { Descriptor.costComparison 6 with
    comparisons := [⟨"fraction", "random", "snowcap"⟩, ⟨"fraction", "mif", "snowcap"⟩] }

/-- A network on which all strategies of the two rules are measured. -/
def measuredNetwork : Entity :=
  { id := "Abilene"
    samples := .ofList [("random", ⟨[2.0]⟩), ("mif", ⟨[8.0]⟩), ("snowcap", ⟨[4.0]⟩)] }

/-- A strategy that is not declared, has no measurement and may be undefined. -/
theorem kept_means_complete_of_undeclared :
    let d := { twiceCompared with defaultMissing := .undefined }
    let e := { measuredNetwork with samples := measuredNetwork.samples.insert "greedy" ⟨[]⟩ }
    ∃ summary, e.summarize d 1000000.0 = .ok (.kept summary) ∧ e.KeptAs d 1000000.0 summary := by
  intro d e
  obtain ⟨summary, hkept⟩ := Entity.summarize_of_none (d := d) (e := e) 1000000.0 (by decide)
  exact ⟨summary, hkept, (kept_means_complete d 1000000.0 e).2.2 summary hkept⟩

/-- The second rule overwrites the comparison of the first. -/
theorem overwritten_comparison :
    ∃ summary baseline candidate,
      measuredNetwork.summarize twiceCompared 1000000.0 = .ok (.kept summary) ∧
      ⟨"fraction", "random", "snowcap"⟩ ∈ twiceCompared.comparisons ∧
      summary.summaries.find? "random" = some baseline ∧
      summary.summaries.find? "snowcap" = some candidate ∧
      summary.comparisons.find? "fraction" ≠
        some (baseline.compareWith candidate measuredNetwork.ideal 1000000.0) := by
  obtain ⟨summary, hkept⟩ := Entity.summarize_of_none (d := twiceCompared) (e := measuredNetwork)
    1000000.0 (by decide)
  have hkeeps := Entity.keptAs_of_kept hkept
  obtain ⟨m, -, hm, -, hrandom, -⟩ := hkeeps.complete "random" ⟨[2.0]⟩ (by decide) (by decide)
  obtain ⟨n, -, hn, -, hmif, -⟩ := hkeeps.complete "mif" ⟨[8.0]⟩ (by decide) (by decide)
  obtain ⟨baseline, candidate, hbaseline, hsnowcap, hfound⟩ :=
    hkeeps.comparison "fraction" ⟨"fraction", "mif", "snowcap"⟩ (by decide)
  refine ⟨summary, m, candidate, hkept, by decide, hrandom, hsnowcap, ?_⟩
  obtain rfl := Option.some.inj (hmif.symm.trans hbaseline)
  rw [hfound, Ne, Option.some.injEq]
  intro heq
  have hmedian : n.median = m.median := congrArg Comparison.baselineMedian heq
  rw [Sample.median_singleton hm, Sample.median_singleton hn] at hmedian
  exact absurd hmedian (by decide)

end FigureData
