/-
  Quantiles do not decrease with the probability.

  The rank below a later position is not an earlier one.  Where it is later, a value of the list
  stands between the two estimates, because each of them is clamped to its own neighbours.  Where
  it is the same, both interpolate between the same neighbours, with weights in their order.
  Exact ranks are not needed, so this holds for samples of every length.

  Proved:
  * `rankBelow_mono`, `weight_mono`: ranks and weights are in the order of the positions.
  * `percentile?_le`: so are the percentiles of an ascending list.
  * `percentile?_mono`, `percentiles_ascend`: percentiles are in the order of their probabilities.
  * `Sample.quantile_mono`: quantiles of a summary are, however long the sample.
  * `quantiles_ascend`: the same of lists, and of the five quantiles of a summary.
-/
import FigureData.Proofs.Statistics.Summary

namespace FigureData

open Binary64

/-! ## Ranks and weights -/

theorem rankAbove_eq (pos : Float) : rankAbove pos =
    if ofNat (rankBelow pos) < pos then rankBelow pos + 1 else rankBelow pos := rfl

theorem rankBelow_le_rankAbove (pos : Float) : rankBelow pos ≤ rankAbove pos := by
  rw [rankAbove_eq]
  split_ifs <;> omega

theorem rankAbove_le (pos : Float) : rankAbove pos ≤ rankBelow pos + 1 := by
  rw [rankAbove_eq]
  split_ifs <;> omega

/-- The ranks part where a position lies behind a rank. -/
theorem rankBelow_ne_rankAbove_iff {pos : Float} :
    rankBelow pos ≠ rankAbove pos ↔ ofNat (rankBelow pos) < pos := by
  rw [rankAbove_eq]
  split_ifs with hlt
  · exact iff_of_true (by omega) hlt
  · exact iff_of_false (fun hne => hne rfl) hlt

section Positions

variable {pos pos' : Float} (hfin : pos'.isFinite = true) (hle : value pos ≤ value pos')
include hfin hle

theorem rankBelow_mono (h0 : 0 ≤ value pos) : rankBelow pos ≤ rankBelow pos' := by
  unfold rankBelow
  rw [toNat_toUInt64 (isFinite_of_value_le h0 hle hfin) h0, toNat_toUInt64 hfin (h0.trans hle)]
  exact min_le_min_right _ (Nat.floor_le_floor hle)

omit hle in
/-- The way from a rank to a position behind it. -/
theorem rounds_weight {rank : ℕ} (hrank : value (ofNat rank) ≤ value pos') :
    (pos' - ofNat rank).isFinite = true ∧
      Rounds (pos' - ofNat rank) (value pos' - value (ofNat rank)) := by
  have hrank0 := value_ofNat_nonneg rank
  have hround := rounds_sub hfin (isFinite_of_value_le hrank0 hrank hfin)
  refine ⟨isFinite_of_value_le (hround.value_nonneg (sub_nonneg.2 hrank)) ?_ hfin, hround⟩
  exact hround.value_le (isNaN_of_isFinite hfin) (by linarith)

/-- Behind the same rank, a later position has a larger weight. -/
theorem weight_mono {rank : ℕ} (hrank : value (ofNat rank) ≤ value pos) :
    0 ≤ value (pos - ofNat rank) ∧
      value (pos - ofNat rank) ≤ value (pos' - ofNat rank) := by
  have hfin' := isFinite_of_value_le ((value_ofNat_nonneg rank).trans hrank) hle hfin
  have hround := (rounds_weight hfin' hrank).2
  exact ⟨hround.value_nonneg (sub_nonneg.2 hrank),
    hround.le (rounds_weight hfin (hrank.trans hle)).2 (by linarith)⟩

end Positions

/-! ## Percentiles -/

/-- What a percentile at a position is made of: the values at the ranks on either side. -/
structure Neighbours (sorted : List Float) (pos low high x : Float) : Prop where
  low_eq : sorted[rankBelow pos]? = some low
  high_eq : sorted[rankAbove pos]? = some high
  eq_ite : x = if rankBelow pos = rankAbove pos then low
    else interpolate low high (pos - ofNat (rankBelow pos))

theorem exists_neighbours {sorted : List Float} (hne : sorted ≠ []) {q x : Float}
    (h : percentile? sorted q = some x) :
    ∃ low high, Neighbours sorted (position q sorted.length) low high x := by
  unfold percentile? at h
  rw [if_neg (by simpa using hne)] at h
  simp only at h
  split_ifs at h with hrank
  · exact ⟨x, x, h, hrank ▸ h, (if_pos hrank).symm⟩
  · split at h
    next low high hlow hhigh =>
      exact ⟨low, high, hlow, hhigh, (Option.some.inj h).symm.trans (if_neg hrank).symm⟩
    next => cases h

section Ascending

variable {sorted : List Float} (hnum : ∀ x ∈ sorted, x.isNaN = false)
  (hasc : sorted.Pairwise (· ≤ ·))
include hnum hasc

namespace Neighbours

variable {pos pos' low low' high high' x y : Float} (hx : Neighbours sorted pos low high x)
  (hy : Neighbours sorted pos' low' high' y)
include hx

theorem between : low ≤ high ∧ low ≤ x ∧ x ≤ high := by
  have hle := le_of_rank_le hnum hasc (rankBelow_le_rankAbove pos) hx.low_eq hx.high_eq
  refine ⟨hle, ?_⟩
  rw [hx.eq_ite]
  split_ifs
  · exact ⟨le_self (isNaN_of_le hle).1, hle⟩
  · exact interpolate_between hle _

variable (hfin : pos'.isFinite = true) (h0 : 0 ≤ value pos) (hle : value pos ≤ value pos')
include hy hfin h0 hle

/-- Behind the same rank, estimates are in the order of their positions. -/
theorem le_of_rank_eq (hrank : rankBelow pos = rankBelow pos') : x ≤ y := by
  have hlow' := hy.low_eq
  rw [← hrank, hx.low_eq] at hlow'
  obtain rfl : low = low' := Option.some.inj hlow'
  by_cases hon : rankBelow pos = rankAbove pos
  · rw [hx.eq_ite, if_pos hon]
    exact (hy.between hnum hasc).2.1
  have hfin' := isFinite_of_value_le h0 hle hfin
  have hbehind := rankBelow_ne_rankAbove_iff.1 hon
  rw [lt_iff_value (isNaN_ofNat _) (isNaN_of_isFinite hfin')] at hbehind
  have hbehind' := hbehind.trans_le hle
  rw [hrank, ← lt_iff_value (isNaN_ofNat _) (isNaN_of_isFinite hfin)] at hbehind'
  have hoff' := rankBelow_ne_rankAbove_iff.2 hbehind'
  have hhigh' := hy.high_eq
  rw [rankAbove_eq, if_pos hbehind', ← hrank] at hhigh'
  have hhigh := hx.high_eq
  rw [rankAbove_eq, if_pos (rankBelow_ne_rankAbove_iff.1 hon), hhigh'] at hhigh
  obtain rfl : high' = high := Option.some.inj hhigh
  obtain ⟨hpair, -, -⟩ := hx.between hnum hasc
  obtain ⟨hlownum, hhighnum⟩ := isNaN_of_le hpair
  obtain ⟨hweight0, hweights⟩ := weight_mono hfin hle hbehind.le
  rw [hx.eq_ite, if_neg hon, hy.eq_ite, if_neg hoff', ← hrank]
  exact interpolate_mono hlownum hhighnum (rounds_weight hfin' hbehind.le).1
    (rounds_weight hfin (hbehind.le.trans hle)).1 hweight0 hweights hpair

/-- Estimates are in the order of their positions. -/
theorem mono : x ≤ y := by
  rcases (rankBelow_mono hfin hle h0).eq_or_lt with hrank | hrank
  · exact hx.le_of_rank_eq hnum hasc hy hfin h0 hle hrank
  · have hnext := le_of_rank_le hnum hasc ((rankAbove_le pos).trans hrank) hx.high_eq hy.low_eq
    exact le_of_le_of_le (le_of_le_of_le (hx.between hnum hasc).2.2 hnext)
      (hy.between hnum hasc).2.1

end Neighbours

/-- Percentiles of an ascending list are in the order of their positions. -/
theorem percentile?_le {q r x y : Float} (hne : sorted ≠ [])
    (hfin : (position r sorted.length).isFinite = true)
    (h0 : 0 ≤ value (position q sorted.length))
    (hle : value (position q sorted.length) ≤ value (position r sorted.length))
    (hx : percentile? sorted q = some x) (hy : percentile? sorted r = some y) : x ≤ y := by
  obtain ⟨_, _, hx⟩ := exists_neighbours hne hx
  obtain ⟨_, _, hy⟩ := exists_neighbours hne hy
  exact hx.mono hnum hasc hy hfin h0 hle

/-- Percentiles of an ascending list are in the order of their probabilities. -/
theorem percentile?_mono (hne : sorted ≠ []) (hn : sorted.length ≤ 2 ^ 53) {q r : Float}
    (hq : 0.0 ≤ q) (hqr : q ≤ r) (hr : r ≤ 1.0) :
    ∃ x y, percentile? sorted q = some x ∧ percentile? sorted r = some y ∧ x ≤ y := by
  have hposq := isPosition hn hq (le_of_le_of_le hqr hr)
  have hposr := isPosition hn (le_of_le_of_le hq hqr) hr
  obtain ⟨_, _, x, hx, -⟩ := hposq.exists_percentile? hn hne rfl rfl
  obtain ⟨_, _, y, hy, -⟩ := hposr.exists_percentile? hn hne rfl rfl
  obtain ⟨h0, hle⟩ := position_mono hq hr hqr (isFinite_ofNat (n := sorted.length - 1) (by omega))
  exact ⟨x, y, hx, hy, percentile?_le hnum hasc hne hposr.finite h0 hle hx hy⟩

/-- Percentiles for the five probabilities are in their order, however long the list. -/
theorem percentiles_ascend {p r : Probability} {x y : Float} (hne : sorted ≠ [])
    (hle : p.value ≤ r.value) (hx : percentile? sorted p.value = some x)
    (hy : percentile? sorted r.value = some y) : x ≤ y := by
  by_cases hlast : (ofNat (sorted.length - 1)).isFinite = true
  · obtain ⟨h0, hpos⟩ := position_mono p.value_bounds.1 r.value_bounds.2 hle hlast
    exact percentile?_le hnum hasc hne (isFinite_position r _ hlast) h0 hpos hx hy
  -- A list too long for the format has all its quantiles at one infinite position.
  · have hinf := infinite_ofNat hlast
    have hpos : position p.value sorted.length = position r.value sorted.length :=
      (mul_infinite p.value_bits.2 p.value_pos hinf).trans
        (mul_infinite r.value_bits.2 r.value_pos hinf).symm
    have hsame : percentile? sorted p.value = percentile? sorted r.value := by
      unfold percentile?
      rw [hpos]
    rw [hsame, hy] at hx
    obtain rfl := Option.some.inj hx
    obtain ⟨_, _, hy⟩ := exists_neighbours hne hy
    exact le_self (isNaN_of_le (hy.between hnum hasc).2.1).2

end Ascending

/-! ## Summaries -/

/-- The sorted values of a complete sample are numbers. -/
theorem Sample.isNaN_of_mem_sort {s : Sample} (h : s.isComplete = true) :
    ∀ x ∈ sort s.values, x.isNaN = false := by
  intro x hx
  exact (Sample.isComplete_iff.1 h).2 x ((sort_perm s.values).mem_iff.1 hx)

/-- The sorted values of a complete sample ascend. -/
theorem Sample.pairwise_sort {s : Sample} (h : s.isComplete = true) :
    (sort s.values).Pairwise (· ≤ ·) := by
  have hnum := Sample.isNaN_of_mem_sort h
  refine (sort_pairwise s.values).imp_of_mem ?_
  intro x y hx hy hle
  exact le_of_totalLe (hnum x hx) (hnum y hy) hle

/-- Quantiles of a summary are in the order of their probabilities. -/
theorem Sample.quantile_mono {s : Sample} {m : Summary} (h : s.summarize = .ok m)
    {p r : Probability} (hle : p.value ≤ r.value) : m.quantile p ≤ m.quantile r := by
  have hcomplete := Sample.isComplete_of_summarize h
  rw [Sample.summarize_of_isComplete hcomplete] at h
  obtain ⟨hquantile, -⟩ := Summary.numbers_ofSorted h
  exact percentiles_ascend (Sample.isNaN_of_mem_sort hcomplete) (Sample.pairwise_sort hcomplete)
    (sort_ne_nil (Sample.isComplete_iff.1 hcomplete).1) hle (hquantile p) (hquantile r)

/-- Quantiles do not decrease with the probability: not over an ascending list of numbers, and
not in the summary of a sample. -/
theorem quantiles_ascend :
    (∀ (sorted : List Float) (q r : Float), sorted ≠ [] → sorted.length ≤ 2 ^ 53 →
      (∀ x ∈ sorted, x.isNaN = false) → sorted.Pairwise (· ≤ ·) → 0.0 ≤ q → q ≤ r → r ≤ 1.0 →
      ∃ x y, percentile? sorted q = some x ∧ percentile? sorted r = some y ∧ x ≤ y) ∧
    ∀ (s : Sample) (m : Summary), s.length ≤ 2 ^ 53 → s.summarize = .ok m →
      m.p05 ≤ m.p25 ∧ m.p25 ≤ m.median ∧ m.median ≤ m.p75 ∧ m.p75 ≤ m.p95 := by
  refine ⟨?_, ?_⟩
  · intro sorted q r hne hn hnum hasc hq hqr hr
    exact percentile?_mono hnum hasc hne hn hq hqr hr
  · intro s m _ h
    have hmono : ∀ p r : Probability, p.value ≤ r.value → m.quantile p ≤ m.quantile r :=
      fun _ _ => Sample.quantile_mono h
    exact ⟨hmono .p05 .p25 (by decide), hmono .p25 .p50 (by decide), hmono .p50 .p75 (by decide),
      hmono .p75 .p95 (by decide)⟩

/-- An infinite measurement makes the neighbours of the two upper quantiles infinitely far
apart. -/
theorem quantiles_ascend_to_infinity :
    (∃ x y, percentile? [-1.0, 2.0, 1.0 / 0.0] 0.5 = some x ∧
      percentile? [-1.0, 2.0, 1.0 / 0.0] 0.75 = some y ∧ x ≤ y) ∧
    ∃ m, (Sample.mk [1.0 / 0.0, -1.0, 2.0]).summarize = .ok m ∧
      m.p05 ≤ m.p25 ∧ m.p25 ≤ m.median ∧ m.median ≤ m.p75 ∧ m.p75 ≤ m.p95 := by
  refine ⟨quantiles_ascend.1 _ _ _ (by decide) (by decide) (by decide) (by decide) (by decide)
    (by decide) (by decide), ?_⟩
  obtain ⟨m, hm, -⟩ := Sample.summarize_ok (s := ⟨[1.0 / 0.0, -1.0, 2.0]⟩) (by decide)
  exact ⟨m, hm, quantiles_ascend.2 _ m (by decide) hm⟩

end FigureData
