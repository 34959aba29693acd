/-
  How box, whiskers and outliers part a sample.

  The quartiles of finite measurements are finite and in their order, so the fences stand around
  the box even where the distance of the quartiles overflows.  A whisker ends at the outermost
  measurement between its fence and the box, so no measurement lies between the fence and the
  end of the whisker, and those outside the fences are those beyond the whiskers.  The two
  whiskers are one construction, for `≤` and for `≥`.

  Proved:
  * `Summary.fences_around_box`: the fences stand around the box.
  * `Summary.isWhisker_whiskerOver`: where a whisker ends.
  * `Summary.IsWhisker.beyond_iff`: beyond it are the measurements beyond its fence.
  * `Summary.parts_ofSorted`: so the whiskers and the fences leave the same outliers.
  * `box_parts_sample`: box, whiskers and outliers part every sample of finite measurements.
-/
import FigureData.Proofs.Statistics.QuantileOrder

namespace FigureData

open Binary64

namespace Summary

/-! ## Whiskers -/

/-- How a whisker ends among the measurements `values`.  Towards the box, `le` ascends for the
lower whisker and descends for the upper one. -/
structure IsWhisker (le : Float → Float → Prop) (values : List Float)
    (fence quartile whisker : Float) : Prop where
  /-- It ends between the fence and the box. -/
  between : le fence whisker ∧ le whisker quartile
  /-- Where measurements lie between them, it ends at the outermost one. -/
  outermost : ∀ v ∈ values, le fence v → le v quartile → whisker ∈ values ∧ le whisker v
  /-- Where none does, it ends at the box. -/
  eq_quartile : (∀ v ∈ values, le fence v → ¬le v quartile) → whisker = quartile

section Whisker

variable {le : Float → Float → Prop} {values : List Float} {fence quartile whisker : Float}

/-- The first of ordered values with a property comes before every other one with it. -/
theorem le_of_find? (hrefl : ∀ v ∈ values, le v v) (hsorted : values.Pairwise le)
    {p : Float → Bool} {x v : Float} (hx : values.find? p = some x) (hv : v ∈ values)
    (hp : p v = true) : le x v := by
  obtain ⟨-, before, after, rfl, hbefore⟩ := List.find?_eq_some_iff_append.1 hx
  rw [List.mem_append, List.mem_cons] at hv
  rcases hv with hv | rfl | hv
  · have hnot := hbefore v hv
    rw [hp] at hnot
    cases hnot
  · exact hrefl v (List.mem_append_right _ (List.mem_cons_self ..))
  · exact List.rel_of_pairwise_cons (List.pairwise_append.1 hsorted).2.1 hv

theorem isWhisker_whiskerOver [DecidableRel le] (htrans : ∀ x y z, le x y → le y z → le x z)
    (hrefl : ∀ v ∈ values, le v v) (hsorted : values.Pairwise le) (hbox : le quartile quartile)
    (hfence : le fence quartile) :
    IsWhisker le values fence quartile (whiskerOver le values fence quartile) := by
  unfold whiskerOver
  cases hfind : values.find? fun x => decide (le fence x) with
  | none =>
    rw [List.find?_eq_none] at hfind
    refine ⟨⟨hfence, hbox⟩, ?_, fun _ => rfl⟩
    intro v hv hin
    exact absurd (decide_eq_true hin) (hfind v hv)
  | some x =>
    have hmem := List.mem_of_find?_eq_some hfind
    have hfound := List.find?_some hfind
    have hin : le fence x := of_decide_eq_true hfound
    have hfirst : ∀ v ∈ values, le fence v → le x v := fun v hv hinv =>
      le_of_find? hrefl hsorted hfind hv (decide_eq_true hinv)
    show IsWhisker le values fence quartile (if le x quartile then x else quartile)
    split_ifs with hout
    · refine ⟨⟨hin, hout⟩, ?_, ?_⟩
      · intro v hv hinv _
        exact ⟨hmem, hfirst v hv hinv⟩
      · intro hnone
        exact absurd hout (hnone x hmem hin)
    -- The first measurement inside the fence is already in the box, so all of them are.
    · refine ⟨⟨hfence, hbox⟩, ?_, fun _ => rfl⟩
      intro v hv hinv houtv
      exact absurd (htrans x v quartile (hfirst v hv hinv) houtv) hout

/-- Where a whisker ends depends on which measurements there are, not on their order. -/
theorem IsWhisker.of_mem_iff {others : List Float} (hmem : ∀ v, v ∈ values ↔ v ∈ others)
    (h : IsWhisker le values fence quartile whisker) :
    IsWhisker le others fence quartile whisker := by
  refine ⟨h.between, ?_, ?_⟩
  · intro v hv hin hout
    obtain ⟨hend, hle⟩ := h.outermost v ((hmem v).2 hv) hin hout
    exact ⟨(hmem whisker).1 hend, hle⟩
  · intro hnone
    exact h.eq_quartile fun v hv => hnone v ((hmem v).1 hv)

/-- The measurements beyond the end of a whisker are those beyond its fence. -/
theorem IsWhisker.beyond_iff (htrans : ∀ x y z, le x y → le y z → le x z)
    (h : IsWhisker le values fence quartile whisker) {v : Float} (hv : v ∈ values)
    (htotal : ¬le whisker v → le v whisker) : ¬le whisker v ↔ ¬le fence v := by
  constructor
  · intro hbeyond hin
    have hout := htrans v whisker quartile (htotal hbeyond) h.between.2
    exact hbeyond (h.outermost v hv hin hout).2
  · intro hout hin
    exact hout (htrans fence whisker v h.between.1 hin)

end Whisker

/-! ## The two whiskers -/

theorem ascending_trans (x y z : Float) (hxy : x ≤ y) (hyz : y ≤ z) : x ≤ z :=
  le_of_le_of_le hxy hyz

theorem descending_trans (x y z : Float) (hxy : x ≥ y) (hyz : y ≥ z) : x ≥ z :=
  le_of_le_of_le hyz hxy

section Ascending

variable {sorted : List Float} (hnum : ∀ x ∈ sorted, x.isNaN = false)
  (hasc : sorted.Pairwise (· ≤ ·)) {fence quartile : Float}
include hnum hasc

theorem isWhisker_lowerWhisker (hfence : fence ≤ quartile) :
    IsWhisker (· ≤ ·) sorted fence quartile (lowerWhisker sorted fence quartile) := by
  have hrefl : ∀ v ∈ sorted, v ≤ v := fun v hv => le_self (hnum v hv)
  rw [lowerWhisker_eq]
  exact isWhisker_whiskerOver ascending_trans hrefl hasc
    (le_self (isNaN_of_le hfence).2) hfence

theorem isWhisker_upperWhisker (hfence : quartile ≤ fence) :
    IsWhisker (· ≥ ·) sorted fence quartile (upperWhisker sorted fence quartile) := by
  have hrefl : ∀ v ∈ sorted.reverse, v ≥ v := fun v hv =>
    le_self (hnum v (List.mem_reverse.1 hv))
  have hwhisker : IsWhisker (· ≥ ·) sorted.reverse fence quartile
      (upperWhisker sorted fence quartile) := by
    rw [upperWhisker_eq]
    exact isWhisker_whiskerOver descending_trans hrefl
      (List.pairwise_reverse.2 hasc) (le_self (isNaN_of_le hfence).1) hfence
  exact hwhisker.of_mem_iff fun _ => List.mem_reverse

end Ascending

section Beyond

variable {values : List Float} {fence quartile whisker v : Float} (hv : v ∈ values)
  (hnum : v.isNaN = false)
include hv hnum

/-- Below the lower fence are the measurements below the lower whisker. -/
theorem IsWhisker.lt_iff (h : IsWhisker (· ≤ ·) values fence quartile whisker) :
    v < fence ↔ v < whisker := by
  obtain ⟨hfence, hwhisker⟩ := isNaN_of_le h.between.1
  have htotal : ¬whisker ≤ v → v ≤ whisker := le_of_not_le hwhisker hnum
  rw [lt_iff_not_le hnum hfence, lt_iff_not_le hnum hwhisker]
  exact (h.beyond_iff ascending_trans hv htotal).symm

/-- Above the upper fence are the measurements above the upper whisker. -/
theorem IsWhisker.gt_iff (h : IsWhisker (· ≥ ·) values fence quartile whisker) :
    fence < v ↔ whisker < v := by
  obtain ⟨hwhisker, hfence⟩ := isNaN_of_le h.between.1
  have htotal : ¬whisker ≥ v → v ≥ whisker := le_of_not_le hnum hwhisker
  rw [lt_iff_not_le hfence hnum, lt_iff_not_le hwhisker hnum]
  exact (h.beyond_iff descending_trans hv htotal).symm

end Beyond

/-! ## Parts of a sample -/

/-- What box, whiskers and outliers of a summary are among the measurements `values`. -/
structure Parts (m : Summary) (values : List Float) : Prop where
  lower : IsWhisker (· ≤ ·) values m.fences.1 m.p25 m.whiskerLow
  upper : IsWhisker (· ≥ ·) values m.fences.2 m.p75 m.whiskerHigh
  /-- The outliers are the measurements outside the fences, in sample order. -/
  outside_fences : m.outliers = values.filter fun v => v < m.fences.1 || m.fences.2 < v
  /-- They are the measurements beyond the whiskers. -/
  beyond_whiskers : m.outliers = values.filter fun v => v < m.whiskerLow || m.whiskerHigh < v

/-- The fences stand around the box. -/
theorem fences_around_box {m : Summary} (h25 : m.p25.isFinite = true)
    (h75 : m.p75.isFinite = true) (hle : m.p25 ≤ m.p75) :
    m.fences.1 ≤ m.p25 ∧ m.p75 ≤ m.fences.2 := by
  have hfactor : 0 < value fenceFactor :=
    (zero_le_iff_value.1 (by decide)).2.lt_of_ne' (mt value_eq_zero.1 (by decide))
  have hspread : 0.0 ≤ fenceFactor * (m.p75 - m.p25) :=
    mul_nonneg_of_pos (by decide) hfactor (sub_nonneg_of_le h25 h75 hle)
  exact ⟨sub_le_self_of_nonneg h25 hspread, le_add_self_of_nonneg h75 hspread⟩

theorem outliers_ofSorted {sorted values : List Float} {m : Summary}
    (h : ofSorted sorted values = .ok m) : m.outliers = outside values m.fences := by
  unfold ofSorted at h
  obtain ⟨p25, -, h⟩ := Outcome.bind_eq_ok h
  obtain ⟨p75, -, h⟩ := Outcome.bind_eq_ok h
  obtain ⟨p05, -, h⟩ := Outcome.bind_eq_ok h
  obtain ⟨median, -, h⟩ := Outcome.bind_eq_ok h
  obtain ⟨p95, -, h⟩ := Outcome.bind_eq_ok h
  cases h
  rfl

end Summary

/-- Where the fences stand around the box, the summary of an ascending list parts the sample. -/
theorem Summary.parts_ofSorted {sorted values : List Float} {m : Summary}
    (hperm : sorted.Perm values) (hnum : ∀ v ∈ sorted, v.isNaN = false)
    (hasc : sorted.Pairwise (· ≤ ·)) (hfences : m.fences.1 ≤ m.p25 ∧ m.p75 ≤ m.fences.2)
    (h : ofSorted sorted values = .ok m) : m.Parts values := by
  obtain ⟨-, hlow, hhigh⟩ := numbers_ofSorted h
  have houtliers := outliers_ofSorted h
  have hlower : IsWhisker (· ≤ ·) values m.fences.1 m.p25 m.whiskerLow := by
    rw [hlow]
    exact (isWhisker_lowerWhisker hnum hasc hfences.1).of_mem_iff fun _ => hperm.mem_iff
  have hupper : IsWhisker (· ≥ ·) values m.fences.2 m.p75 m.whiskerHigh := by
    rw [hhigh]
    exact (isWhisker_upperWhisker hnum hasc hfences.2).of_mem_iff fun _ => hperm.mem_iff
  refine ⟨hlower, hupper, houtliers, ?_⟩
  rw [houtliers]
  refine List.filter_congr ?_
  intro v hv
  have hvnum := hnum v (hperm.mem_iff.2 hv)
  rw [decide_eq_decide.2 (hlower.lt_iff hv hvnum), decide_eq_decide.2 (hupper.gt_iff hv hvnum)]

/-- Box, whiskers and outliers part every sample of finite measurements. -/
theorem box_parts_sample {s : Sample} (hne : s.values ≠ [])
    (hfin : ∀ v ∈ s.values, v.isFinite = true) :
    ∃ m, s.summarize = .ok m ∧ m.Parts s.values := by
  have hcomplete : s.isComplete = true :=
    Sample.isComplete_iff.2 ⟨hne, fun v hv => isNaN_of_isFinite (hfin v hv)⟩
  obtain ⟨m, hm, -⟩ := Sample.summarize_ok hcomplete
  have hbox : m.quantile .p25 ≤ m.quantile .p75 := Sample.quantile_mono hm (by decide)
  have hfinite := Sample.isFinite_summarize hfin hm
  have hfences :=
    Summary.fences_around_box (hfinite.quantile .p25) (hfinite.quantile .p75) hbox
  have hsorted := hm
  rw [Sample.summarize_of_isComplete hcomplete] at hsorted
  exact ⟨m, hm, Summary.parts_ofSorted (sort_perm s.values) (Sample.isNaN_of_mem_sort hcomplete)
    (Sample.pairwise_sort hcomplete) hfences hsorted⟩

/-- No measurement lies between the lower fence at -625 and the lower quartile at -250, so the
lower whisker ends at the box. -/
theorem box_parts_sample_without_whisker :
    ∃ m, (Sample.mk [0.0, -1000.0, 0.0, 0.0]).summarize = .ok m ∧
      m.Parts [0.0, -1000.0, 0.0, 0.0] ∧
      (m.fences.1, m.p25, m.whiskerLow, m.outliers) = (-625.0, -250.0, -250.0, [-1000.0]) := by
  obtain ⟨m, hm, hparts⟩ :=
    box_parts_sample (s := ⟨[0.0, -1000.0, 0.0, 0.0]⟩) (by decide) (by decide)
  refine ⟨m, hm, hparts, ?_⟩
  have hsort : sort [0.0, -1000.0, 0.0, 0.0] = [-1000.0, 0.0, 0.0, 0.0] :=
    (sort_congr (by decide)).trans (List.mergeSort_of_pairwise (by decide))
  rw [Sample.summarize_of_isComplete (by decide), hsort] at hm
  cases hm
  decide

end FigureData
