/-
  The figures of a cost comparison say what its table shows.

  The share of networks on which the strategy under test is not worse is computed from a
  column of ratios, the number of ties at zero from the comparisons of the networks.  Where
  no cost is negative both agree with the medians that stand in the rows: medians of costs
  are costs, so every ratio is a number, and it is at most one exactly when the median of
  the strategy under test does not exceed that of the random baseline.

  Proved:
  * `hasCosts_of_takeIn`: every measurement of a network is missing or a cost.
  * `exists_measured`: a network that is kept has two costs as medians, and their ratio.
  * `Dataset.ofRatios_numbers_iff`: the drawing of the curve in terms of the rows.
  * `figures_eq_rows`: the scalars and the drawing of the curve in terms of the rows.
-/
import FigureData.Proofs.Dataset.Figures
import FigureData.Proofs.Extraction.Measurements
import FigureData.Proofs.Run.CostSamples
import FigureData.Proofs.Statistics.Ratio

namespace FigureData

open Binary64 Extraction Outcome

/-! ## Costs in the files -/

/-- The costs in the files that an evaluation reads. -/
def inputCosts (ctx : Context) (e : Evaluation) (t : FileTree) : List Float :=
  (inputItems ctx e t).flatMap fun item =>
    match item.bind Record.document with
    | .ok j => e.descriptor.strategies.flatMap fun s => s.source.numbers j
    | .error _ => []

/-- Every measurement of the entity is missing or a cost. -/
def Entity.HasCosts (e : Entity) : Prop :=
  ∀ x ∈ e.samples.entries, ∀ v ∈ x.2.values, v = missing ∨ IsCost v

section Files

variable {ctx : Context} {e : Evaluation} {t : FileTree} {r : Record} {j : Json}

theorem isFinite_of_inputItems (hr : .ok r ∈ inputItems ctx e t) (hj : r.document = .ok j) :
    j.IsFinite := by
  unfold inputItems at hr
  split at hr
  next items hitems =>
    obtain ⟨loader, -, hitems⟩ := bind_eq_ok hitems
    exact Loader.isFinite_of_records hitems hr hj
  next => cases hr

theorem mem_inputCosts (hr : .ok r ∈ inputItems ctx e t) (hj : r.document = .ok j) {s : Strategy}
    (hs : s ∈ e.descriptor.strategies) {x : Float} (hx : x ∈ s.source.numbers j) :
    x ∈ inputCosts ctx e t := by
  refine List.mem_flatMap.2 ⟨.ok r, hr, ?_⟩
  rw [show (Except.ok r : Except Fault Record).bind Record.document = .ok j from hj]
  exact List.mem_flatMap.2 ⟨s, hs, hx⟩

end Files

theorem hasCosts_of_takeIn {number : UInt8} {ctx : Context} {t : FileTree} {intake : Intake}
    {entities : List Entity} (hcosts : ∀ x ∈ inputCosts ctx (.costComparison number) t, 0.0 ≤ x)
    (h : takeIn ctx (.costComparison number) t = .ok (intake, entities)) :
    ∀ e ∈ entities, e.HasCosts := by
  refine takeIn_strategies (.ofDescriptor (.costComparison number)) rfl ?_ h
  intro r c hr hc
  obtain ⟨j, hj, hread⟩ := StrategyRules.read_spec hc
  have hsamples : ∀ x ∈ c.samples, ∀ v ∈ x.2.values, v = missing ∨ IsCost v := by
    intro x hx v hv
    obtain ⟨s, hs, -, hsample⟩ := exists_mem_of_forall₂ hread hx
    refine (mem_values_of_readSample hsample v hv).imp_right ?_
    intro hv
    exact ⟨SampleSource.isFinite_numbers (isFinite_of_inputItems hr hj) v hv,
      hcosts v (mem_inputCosts hr hj (List.mem_of_mem_filter hs) hv)⟩
  constructor
  · intro i
    exact forall_samples_addTo hsamples fun x hx => absurd hx List.not_mem_nil
  · intro e he
    exact forall_samples_addTo hsamples he

/-! ## Networks that are kept -/

/-- The medians of a network are costs, and its ratio is made of them. -/
structure EntitySummary.Measured (s : EntitySummary) (sentinel random snowcap : Float) : Prop where
  random_isCost : IsCost random
  snowcap_isCost : IsCost snowcap
  random_median : s.statistic? "random" (.quantile .p50) = some random
  snowcap_median : s.statistic? "snowcap" (.quantile .p50) = some snowcap
  ratio : (s.comparisons.find? "fraction").map Comparison.ratio =
    some (.between random snowcap sentinel)

/-- The median of a complete sample of costs is a cost. -/
theorem isCost_median {s : Sample} (hs : s.isComplete = true)
    (hall : ∀ v ∈ s.values, v = missing ∨ IsCost v) {label : String} {policy : MissingPolicy}
    {m : Summary} (hm : resolveSample label s policy = .ok m) : IsCost m.median := by
  obtain ⟨m', hm', hmedian⟩ := resolveSample_of_complete label hs policy
  rw [hm] at hm'
  cases hm'
  have hcosts := Sample.forall_of_isComplete hs hall
  exact IsCost.median hcosts (Sample.isComplete_iff.1 hs).1 hmedian

/-- A network that is kept has two costs as medians, and their ratio. -/
theorem exists_measured (number : UInt8) {e : Entity} (hkeys : e.samples.keys = costLabels)
    (hcosts : e.HasCosts) {sentinel : Float} {s : EntitySummary}
    (h : e.summarize (.costComparison number) sentinel = .ok (.kept s)) :
    ∃ random snowcap, s.Measured sentinel random snowcap := by
  have hcomplete := (decisive?_eq_none_iff number hkeys).1
    ((Entity.summarize_kept_iff sentinel).1 ⟨s, h⟩)
  obtain ⟨hsummaries, hcomparisons⟩ := Entity.summarize_kept_spec h
  have hmedian : ∀ label ∈ costLabels, ∃ m, s.summaries.find? label = some m ∧ IsCost m.median := by
    intro label hlabel
    obtain ⟨sample, hfind⟩ := OrderedMap.exists_find? (hkeys ▸ hlabel)
    have hmem := OrderedMap.find?_eq_some_iff.1 hfind
    obtain ⟨m, hm, hresolve⟩ := hsummaries (label, sample) hmem
    have hsample : sample.isComplete = true := by
      have := hcomplete label hlabel
      unfold Entity.hasComplete at this
      rwa [hfind, Option.any_some] at this
    exact ⟨m, hm, isCost_median hsample (hcosts _ hmem) hresolve⟩
  obtain ⟨random, hrandom, hrandomCost⟩ := hmedian "random" (by decide)
  obtain ⟨snowcap, hsnowcap, hsnowcapCost⟩ := hmedian "snowcap" (by decide)
  refine ⟨random.median, snowcap.median, hrandomCost, hsnowcapCost, ?_, ?_, ?_⟩
  · unfold EntitySummary.statistic?
    rw [hrandom]
    rfl
  · unfold EntitySummary.statistic?
    rw [hsnowcap]
    rfl
  · have hone : s.comparisons = SortedMap.insert ∅ "fraction"
        (random.compareWith snowcap e.ideal sentinel) := by
      rw [hcomparisons]
      unfold compareAll
      rw [show (Descriptor.costComparison number).comparisons =
        [⟨"fraction", "random", "snowcap"⟩] from rfl, List.foldl_cons, List.foldl_nil]
      simp only [hrandom, hsnowcap]
    rw [hone, SortedMap.find?_insert_self]
    rfl

/-! ## Rows -/

namespace Dataset

/-- In this row the strategy under test is not worse than the random baseline. -/
def notWorse (d : Dataset) (row : Row) : Bool :=
  match d.numberAt? row "snowcap_50", d.numberAt? row "random_50" with
  | some candidate, some baseline => decide (candidate ≤ baseline)
  | _, _ => false

/-- In this row both medians are zero. -/
def tiesAtZero (d : Dataset) (row : Row) : Bool :=
  match d.numberAt? row "snowcap_50", d.numberAt? row "random_50" with
  | some candidate, some baseline => candidate == 0.0 && baseline == 0.0
  | _, _ => false

end Dataset

/-- Does the comparison of the networks count as a tie at zero? -/
def EntitySummary.isTie (s : EntitySummary) : Bool :=
  match s.comparisons.find? "fraction" with
  | some c => decide (c.ratio.rule = .bothZero)
  | none => false

theorem bothZeroCount_cost (number : UInt8) (entities : List EntitySummary) :
    bothZeroCount (.costComparison number) entities "fraction" =
      entities.countP EntitySummary.isTie := by
  rw [List.countP_eq_length_filter]
  exact if_pos rfl

section Rows

variable {d : Dataset} {number : UInt8} {s : EntitySummary} {sentinel random snowcap : Float}

/-- The row of a network shows its medians and their ratio. -/
theorem numberAt?_measured (hd : d.columns = (Descriptor.costComparison number).headers)
    (hs : s.Measured sentinel random snowcap) (hsentinel : 1.0 < sentinel) (i : Nat) :
    d.numberAt? (s.rowAt (Descriptor.costComparison number).columns i) "fraction" =
        some (MedianRatio.between random snowcap sentinel).value ∧
      d.numberAt? (s.rowAt (Descriptor.costComparison number).columns i) "random_50" =
        some random ∧
      d.numberAt? (s.rowAt (Descriptor.costComparison number).columns i) "snowcap_50" =
        some snowcap := by
  refine ⟨?_, ?_, ?_⟩
  · rw [Dataset.numberAt?_rowAt (.ratio "fraction") hd rfl]
    show (Cell.ofOption ((s.comparisons.find? "fraction").map fun c => c.ratio.value)).number? = _
    have hratio : ((s.comparisons.find? "fraction").map fun c => c.ratio.value) =
        some (MedianRatio.between random snowcap sentinel).value := by
      have := congrArg (Option.map MedianRatio.value) hs.ratio
      rwa [Option.map_map] at this
    rw [hratio]
    exact number?_ofOption
      (MedianRatio.between_spec hs.random_isCost hs.snowcap_isCost hsentinel).1
  · rw [Dataset.numberAt?_rowAt (.stat "random_50" "random" (.quantile .p50)) hd rfl]
    show (Cell.ofOption (s.statistic? "random" (.quantile .p50))).number? = _
    rw [hs.random_median]
    exact number?_ofOption hs.random_isCost.isNaN
  · rw [Dataset.numberAt?_rowAt (.stat "snowcap_50" "snowcap" (.quantile .p50)) hd rfl]
    show (Cell.ofOption (s.statistic? "snowcap" (.quantile .p50))).number? = _
    rw [hs.snowcap_median]
    exact number?_ofOption hs.snowcap_isCost.isNaN

theorem notWorse_measured (hd : d.columns = (Descriptor.costComparison number).headers)
    (hs : s.Measured sentinel random snowcap) (hsentinel : 1.0 < sentinel) (i : Nat) :
    d.notWorse (s.rowAt (Descriptor.costComparison number).columns i) =
      decide (snowcap ≤ random) := by
  obtain ⟨-, hrandom, hsnowcap⟩ := numberAt?_measured hd hs hsentinel i
  unfold Dataset.notWorse
  rw [hsnowcap, hrandom]

/-- The ties of the rows are the ties of the comparisons. -/
theorem tiesAtZero_measured (hd : d.columns = (Descriptor.costComparison number).headers)
    (hs : s.Measured sentinel random snowcap) (hsentinel : 1.0 < sentinel) (i : Nat) :
    d.tiesAtZero (s.rowAt (Descriptor.costComparison number).columns i) = s.isTie := by
  obtain ⟨-, hrandom, hsnowcap⟩ := numberAt?_measured hd hs hsentinel i
  obtain ⟨c, hc, hratio⟩ := Option.map_eq_some_iff.1 hs.ratio
  have htie : s.isTie = decide (c.ratio.rule = .bothZero) := by
    unfold EntitySummary.isTie
    rw [hc]
  unfold Dataset.tiesAtZero
  rw [hsnowcap, hrandom, htie, hratio, Bool.eq_iff_iff, Bool.and_eq_true, decide_eq_true_eq,
    MedianRatio.rule_eq_bothZero_iff hs.random_isCost hs.snowcap_isCost]
  exact and_comm

/-- A row shows both medians, and a ratio that says which of them is larger. -/
structure Dataset.ShowsRatio (d : Dataset) (row : Row) : Prop where
  fraction : ∃ x, d.numberAt? row "fraction" = some x ∧ x.isNaN = false ∧
    (x ≤ 1.0 ↔ d.notWorse row = true)
  random : ∃ x, d.numberAt? row "random_50" = some x
  snowcap : ∃ x, d.numberAt? row "snowcap_50" = some x

theorem showsRatio_measured (hd : d.columns = (Descriptor.costComparison number).headers)
    (hs : s.Measured sentinel random snowcap) (hsentinel : 1.0 < sentinel) (i : Nat) :
    d.ShowsRatio (s.rowAt (Descriptor.costComparison number).columns i) := by
  obtain ⟨hratio, hrandom, hsnowcap⟩ := numberAt?_measured hd hs hsentinel i
  obtain ⟨hnumber, hle⟩ := MedianRatio.between_spec hs.random_isCost hs.snowcap_isCost hsentinel
  have hworse := notWorse_measured hd hs hsentinel i
  refine ⟨⟨_, hratio, hnumber, ?_⟩, ⟨_, hrandom⟩, ⟨_, hsnowcap⟩⟩
  rw [hle, hworse, decide_eq_true_eq]

/-- The curve of the ratios is drawn in one piece exactly when no row shows a larger median of
the strategy under test. -/
theorem Dataset.ofRatios_numbers_iff (h : ∀ row ∈ d.rows, d.ShowsRatio row) :
    CurveBranch.ofRatios (d.numbers "fraction") = .bounded ↔
      ∀ row ∈ d.rows, d.notWorse row = true := by
  -- The numbers of the column are the ratios that the rows show.
  have hshown : ∀ x ∈ d.numbers "fraction", ∃ row ∈ d.rows, x.isNaN = false ∧
      (x ≤ 1.0 ↔ d.notWorse row = true) := by
    intro x hx
    obtain ⟨row, hmem, hx⟩ := List.mem_filterMap.1 hx
    obtain ⟨y, hy, hnumber, hle⟩ := (h row hmem).fraction
    rw [hy] at hx
    cases hx
    exact ⟨row, hmem, hnumber, hle⟩
  have hnumbers : ∀ x ∈ d.numbers "fraction", x.isNaN = false := by
    intro x hx
    obtain ⟨row, -, hnumber, -⟩ := hshown x hx
    exact hnumber
  rw [CurveBranch.ofRatios_eq_bounded_iff hnumbers]
  constructor
  · intro hall row hmem
    obtain ⟨x, hx, -, hle⟩ := (h row hmem).fraction
    exact hle.1 (hall x (List.mem_filterMap.2 ⟨row, hmem, hx⟩))
  · intro hall x hx
    obtain ⟨row, hmem, -, hle⟩ := hshown x hx
    exact hle.2 (hall row hmem)

end Rows

/-! ## Figures -/

/-- A context is only made with a sentinel that exceeds one. -/
theorem one_lt_ratioSentinel {config : Config} {source : ResultSet} {ctx : Context}
    (h : Context.make config source = .ok ctx) : 1.0 < ctx.ratioSentinel := by
  unfold Context.make at h
  obtain ⟨_, hvalid, rfl⟩ := map_eq_ok h
  unfold Config.validate at hvalid
  simp only at hvalid
  split at hvalid
  · cases hvalid
  split at hvalid
  next hsentinel => exact hsentinel
  next => cases hvalid

/-- The figures of a cost comparison say what its table shows: every network has a ratio, and
the scalars and the drawing of the curve are those of the medians in the rows. -/
theorem figures_eq_rows {config : Config} {source : ResultSet} {ctx : Context} {number : UInt8}
    {t : FileTree} {c : Collected} (hctx : Context.make config source = .ok ctx)
    (hcosts : ∀ x ∈ inputCosts ctx (.costComparison number) t, 0.0 ≤ x)
    (h : collect ctx (.costComparison number) t = .ok c) :
    (∀ row ∈ c.dataset.rows, ∀ header ∈ ["fraction", "random_50", "snowcap_50"],
      ∃ x, c.dataset.numberAt? row header = some x) ∧
    c.dataset.scalars.find? "fraction_less_equal_one" =
      some (if c.dataset.rows = [] then 0.0
        else ofNat (c.dataset.rows.countP c.dataset.notWorse) / ofNat c.dataset.rows.length) ∧
    c.dataset.scalars.find? "both_zero_count" =
      some (ofNat (c.dataset.rows.countP c.dataset.tiesAtZero)) ∧
    (c.dataset.branch = some .bounded ↔
      ∀ row ∈ c.dataset.rows, c.dataset.notWorse row = true) := by
  have hsentinel := one_lt_ratioSentinel hctx
  obtain ⟨intake, entities, kept, htake, hdataset, hkept⟩ := collect_eq_ok h
  have hmeasured : ∀ s ∈ kept, ∃ random snowcap, s.Measured ctx.ratioSentinel random snowcap := by
    intro s hs
    obtain ⟨entity, hentity, hsummary⟩ := hkept s hs
    exact exists_measured number (keys_of_takeIn htake entity hentity)
      (hasCosts_of_takeIn hcosts htake entity hentity) hsummary
  generalize c.dataset = d at *
  obtain ⟨ordered, hperm, hcolumns, hrows⟩ := Dataset.ofDescriptor_eq_ok hdataset
  obtain ⟨hfraction, hties, hbranch, -⟩ :=
    Dataset.ratioSummary_spec "fraction" rfl (by decide) hdataset
  -- No column of a cost comparison is called for by the data.
  change d.columns = (Descriptor.costComparison number).headers at hcolumns
  change d.rows = rowsOf (Descriptor.costComparison number).columns ordered at hrows
  have hordered : ∀ s ∈ ordered, ∃ random snowcap, s.Measured ctx.ratioSentinel random snowcap := by
    intro s hs
    exact hmeasured s (hperm.mem_iff.1 hs)
  have hrow : ∀ row ∈ d.rows, d.ShowsRatio row := by
    intro row hmem
    rw [hrows] at hmem
    obtain ⟨s, hs, i, rfl⟩ := mem_rowsOf hmem
    obtain ⟨random, snowcap, hs⟩ := hordered s hs
    exact showsRatio_measured hcolumns hs hsentinel i
  refine ⟨?_, ?_, ?_, ?_⟩
  · intro row hmem
    obtain ⟨⟨x, hx, -⟩, hrandom, hsnowcap⟩ := hrow row hmem
    rw [List.forall_mem_cons, List.forall_mem_cons, List.forall_mem_singleton]
    exact ⟨⟨x, hx⟩, hrandom, hsnowcap⟩
  · have hshare : ∀ row ∈ d.rows, ∃ x, d.numberAt? row "fraction" = some x ∧
        (x ≤ 1.0 ↔ d.notWorse row = true) := by
      intro row hmem
      obtain ⟨x, hx, -, hle⟩ := (hrow row hmem).fraction
      exact ⟨x, hx, hle⟩
    rw [hfraction, Dataset.fractionAtOrBelow_numbers hshare]
  · have hcount : d.rows.countP d.tiesAtZero = ordered.countP EntitySummary.isTie := by
      rw [hrows]
      apply countP_rowsOf
      intro s hs i
      obtain ⟨random, snowcap, hs⟩ := hordered s hs
      exact tiesAtZero_measured hcolumns hs hsentinel i
    rw [hties, hcount, hperm.countP_eq]
    exact congrArg (fun n => some (ofNat n)) (bothZeroCount_cost number kept)
  · rw [hbranch, Option.some.injEq]
    exact Dataset.ofRatios_numbers_iff hrow

/-- Results of one network on which the strategy under test costs less than every baseline. -/
def completedRun : FileTree :=
  resultTree (.costComparison 6) [("A.json", .ofText (costText "3" "4" "4" "2"))]

theorem completedRun_figures :
    ∃ c, collect freshContext (.costComparison 6) completedRun = .ok c ∧
      c.dataset.rows.length = 1 ∧
      c.dataset.scalars.find? "both_zero_count" =
        some (ofNat (c.dataset.rows.countP c.dataset.tiesAtZero)) := by
  have hctx : Context.make { root := "r" } .fresh = .ok freshContext := rfl
  have hcosts : ∀ x ∈ inputCosts freshContext (.costComparison 6) completedRun, 0.0 ≤ x := by
    decide +kernel
  have hrun : (collect freshContext (.costComparison 6) completedRun).toOption.any
      (fun c => c.dataset.rows.length = 1) = true := by
    decide +kernel
  obtain ⟨c, hcollect, hrows⟩ := exists_of_any hrun
  exact ⟨c, hcollect, of_decide_eq_true hrows, (figures_eq_rows hctx hcosts hcollect).2.2.1⟩

end FigureData
