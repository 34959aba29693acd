/-
  Summaries of finite measurements hold finite numbers.

  Differences and fences may overflow on the way; quantiles are clamped to their neighbours, and
  a whisker ends at a measurement or at a quartile, so nothing of that reaches the summary.

  Proved:
  * `Summary.numbers_ofSorted`: the quantiles of a summary are percentiles, and where the whiskers
    end.
  * `Sample.isFinite_summarize`: every number in the summary of finite measurements is finite.
  * `MedianRatio.isNaN_between`: the ratio of finite medians is a number.
-/
import FigureData.Proofs.Outcome
import FigureData.Proofs.Statistics.Percentile
import FigureData.Statistics.Comparison

namespace FigureData

open Binary64 Outcome

/-! ## Finite numbers -/

/-- Finite numbers are those between the largest doubles. -/
theorem isFinite_iff_within {x : Float} :
    x.isFinite = true ↔ Within (-(infinityBits - 1 : ℤ)) (infinityBits - 1) x := by
  unfold Within
  rw [isFinite_iff, isNaN_eq_false_iff, signedNumber_eq]
  split_ifs <;> omega

/-- A percentile of finite numbers is finite. -/
theorem isFinite_percentile? {sorted : List Float} (hall : ∀ x ∈ sorted, x.isFinite = true)
    (hne : sorted ≠ []) {q x : Float} (h : percentile? sorted q = some x) : x.isFinite = true := by
  have hwithin : ∀ y ∈ sorted, Within (-(infinityBits - 1 : ℤ)) (infinityBits - 1) y :=
    fun y hy => isFinite_iff_within.1 (hall y hy)
  exact isFinite_iff_within.2 (percentile?_bounds hwithin hne h)

/-! ## Summaries -/

/-- The quantiles and whiskers of a summary are finite numbers. -/
structure Summary.IsFinite (m : Summary) : Prop where
  quantile : ∀ p, (m.quantile p).isFinite = true
  whiskerLow : m.whiskerLow.isFinite = true
  whiskerHigh : m.whiskerHigh.isFinite = true

namespace Summary

/-- A whisker over values that are ordered towards the box.  The lower whisker is the one for
`≤`, the upper one the one for `≥`. -/
def whiskerOver (le : Float → Float → Prop) [DecidableRel le] (values : List Float)
    (fence quartile : Float) : Float :=
  match values.find? fun x => le fence x with
  | some x => if le x quartile then x else quartile
  | none => quartile

theorem lowerWhisker_eq (sorted : List Float) (fence p25 : Float) :
    lowerWhisker sorted fence p25 = whiskerOver (· ≤ ·) sorted fence p25 := rfl

theorem upperWhisker_eq (sorted : List Float) (fence p75 : Float) :
    upperWhisker sorted fence p75 = whiskerOver (· ≥ ·) sorted.reverse fence p75 := rfl

/-- A whisker ends at a measurement or at its quartile. -/
theorem whiskerOver_mem (le : Float → Float → Prop) [DecidableRel le] (values : List Float)
    (fence quartile : Float) : whiskerOver le values fence quartile ∈ quartile :: values := by
  unfold whiskerOver
  split
  next x hx =>
    split
    · exact List.mem_cons_of_mem _ (List.mem_of_find?_eq_some hx)
    · exact List.mem_cons_self ..
  next => exact List.mem_cons_self ..

theorem lowerWhisker_mem (sorted : List Float) (fence p25 : Float) :
    lowerWhisker sorted fence p25 ∈ p25 :: sorted :=
  whiskerOver_mem (· ≤ ·) sorted fence p25

theorem upperWhisker_mem (sorted : List Float) (fence p75 : Float) :
    upperWhisker sorted fence p75 ∈ p75 :: sorted := by
  have hmem := whiskerOver_mem (· ≥ ·) sorted.reverse fence p75
  rwa [List.mem_cons, List.mem_reverse, ← List.mem_cons] at hmem

theorem estimate_eq_ok {sorted : List Float} {p : Probability} {x : Float}
    (h : estimate sorted p = .ok x) : percentile? sorted p.value = some x := by
  unfold estimate at h
  split at h
  next y hy =>
    cases h
    exact hy
  next => cases h

/-- What the numbers of a summary are. -/
theorem numbers_ofSorted {sorted values : List Float} {m : Summary}
    (h : ofSorted sorted values = .ok m) :
    (∀ p, percentile? sorted p.value = some (m.quantile p)) ∧
      m.whiskerLow = lowerWhisker sorted m.fences.1 m.p25 ∧
      m.whiskerHigh = upperWhisker sorted m.fences.2 m.p75 := by
  unfold ofSorted at h
  obtain ⟨p25, h25, h⟩ := bind_eq_ok h
  obtain ⟨p75, h75, h⟩ := bind_eq_ok h
  obtain ⟨p05, h05, h⟩ := bind_eq_ok h
  obtain ⟨median, h50, h⟩ := bind_eq_ok h
  obtain ⟨p95, h95, h⟩ := bind_eq_ok h
  cases h
  refine ⟨?_, rfl, rfl⟩
  intro p
  cases p with
  | p05 => exact estimate_eq_ok h05
  | p25 => exact estimate_eq_ok h25
  | p50 => exact estimate_eq_ok h50
  | p75 => exact estimate_eq_ok h75
  | p95 => exact estimate_eq_ok h95

/-- What holds of the measurements and of their percentiles holds of every number in the
summary. -/
theorem forall_ofSorted {P : Float → Prop} {sorted values : List Float} {m : Summary}
    (hall : ∀ x ∈ sorted, P x) (hpercentile : ∀ q x, percentile? sorted q = some x → P x)
    (h : ofSorted sorted values = .ok m) :
    (∀ p, P (m.quantile p)) ∧ P m.whiskerLow ∧ P m.whiskerHigh := by
  obtain ⟨hquantile, hlow, hhigh⟩ := numbers_ofSorted h
  have hnumbers : ∀ p, ∀ x ∈ m.quantile p :: sorted, P x := fun p =>
    List.forall_mem_cons.2 ⟨hpercentile _ _ (hquantile p), hall⟩
  refine ⟨fun p => hpercentile _ _ (hquantile p), ?_, ?_⟩
  · rw [hlow]
    exact hnumbers .p25 _ (lowerWhisker_mem ..)
  · rw [hhigh]
    exact hnumbers .p75 _ (upperWhisker_mem ..)

theorem isFinite_ofSorted {sorted values : List Float} (hall : ∀ x ∈ sorted, x.isFinite = true)
    (hne : sorted ≠ []) {m : Summary} (h : ofSorted sorted values = .ok m) : m.IsFinite := by
  have hpercentile : ∀ q x, percentile? sorted q = some x → x.isFinite = true :=
    fun _ _ => isFinite_percentile? hall hne
  obtain ⟨hquantile, hlow, hhigh⟩ := forall_ofSorted hall hpercentile h
  exact ⟨hquantile, hlow, hhigh⟩

end Summary

/-- Every number in the summary of finite measurements is finite. -/
theorem Sample.isFinite_summarize {s : Sample} (hall : ∀ x ∈ s.values, x.isFinite = true)
    {m : Summary} (h : s.summarize = .ok m) : m.IsFinite := by
  have hcomplete := Sample.isComplete_of_summarize h
  rw [Sample.summarize_of_isComplete hcomplete] at h
  have hsorted : ∀ x ∈ sort s.values, x.isFinite = true := by
    intro x hx
    exact hall x ((sort_perm s.values).mem_iff.1 hx)
  exact Summary.isFinite_ofSorted hsorted (sort_ne_nil (Sample.isComplete_iff.1 hcomplete).1) h

/-! ## Ratios -/

/-- The ratio of finite medians is a number, whatever their signs. -/
theorem MedianRatio.isNaN_between {b c sentinel : Float} (hb : b.isFinite = true)
    (hc : c.isFinite = true) (hs : 1.0 < sentinel) : (between b c sentinel).value.isNaN = false := by
  have hbn := isNaN_of_isFinite hb
  have hcn := isNaN_of_isFinite hc
  unfold between
  rw [hbn, hcn, if_neg (by decide)]
  split_ifs with heq hzero hzero
  · rfl
  · rfl
  · exact isNaN_of_lt hs
  · refine isNaN_div hc hb (Nat.pos_of_ne_zero fun hmag => hzero ?_)
    rw [beq_iff hbn rfl, signedNumber_eq, hmag]
    split_ifs <;> rfl

end FigureData
