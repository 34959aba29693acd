/-
  Positions of probabilities, and the ranks on either side of them.

  For at most 2 ^ 53 values the last rank is a double, so the rounded position of a probability
  is neither negative nor beyond it, and the ranks of the position are its floor and its ceiling.

  Proved:
  * `isPosition`: the position of a probability lies among the ranks.
  * `position_mono`: a larger probability does not have an earlier position.
  * `IsPosition.rankBelow_eq`, `IsPosition.rankAbove_eq`: its ranks are floor and ceiling.
  * `IsPosition.exists_percentile?`: so the percentile exists, and it is made of the values at
    these ranks (`Brackets`).
-/
import FigureData.Proofs.Statistics.Interpolation

namespace FigureData

open Binary64

/-! ## Positions -/

/-- A position among the ranks of `n` values. -/
structure IsPosition (n : ℕ) (pos : Float) : Prop where
  finite : pos.isFinite = true
  nonneg : 0 ≤ value pos
  le_last : value pos ≤ (n - 1 : ℕ)

section Position

variable {q r : Float} {n : ℕ} (hq : 0.0 ≤ q) (hr : r ≤ 1.0) (hqr : q ≤ r)

include hq in
theorem value_nonneg_of_le : 0 ≤ value q := (zero_le_iff_value.1 hq).2

include hr in
theorem value_le_one_of_le : value r ≤ 1 := by
  have hnum := (isNaN_of_le hr).1
  rwa [le_iff_value hnum rfl, value_one] at hr

theorem isFinite_of_probability (h0 : 0.0 ≤ q) (h1 : q ≤ 1.0) : q.isFinite = true := by
  refine isFinite_of_value_le (value_nonneg_of_le h0) ?_ (rfl : (1.0 : Float).isFinite = true)
  rw [value_one]
  exact value_le_one_of_le h1

variable (hn : n ≤ 2 ^ 53)
include hn

theorem rounds_position (hfin : q.isFinite = true) :
    Rounds (position q n) (value q * (n - 1 : ℕ)) := by
  have hlast : n - 1 < 2 ^ 53 := by omega
  have hround := rounds_mul hfin (isFinite_ofNat hlast)
  rwa [value_ofNat hlast] at hround

/-- The position of a probability lies among the ranks. -/
theorem isPosition (h0 : 0.0 ≤ q) (h1 : q ≤ 1.0) : IsPosition n (position q n) := by
  have hlast : n - 1 < 2 ^ 53 := by omega
  have hround := rounds_position hn (isFinite_of_probability h0 h1)
  have hnonneg : (0 : ℚ) ≤ (n - 1 : ℕ) := Nat.cast_nonneg _
  have hpos0 := hround.value_nonneg (mul_nonneg (value_nonneg_of_le h0) hnonneg)
  have hpos1 : value (position q n) ≤ value (ofNat (n - 1)) := by
    refine hround.value_le (isNaN_ofNat _) ?_
    rw [value_ofNat hlast]
    exact mul_le_of_le_one_left hnonneg (value_le_one_of_le h1)
  refine ⟨isFinite_of_value_le hpos0 hpos1 (isFinite_ofNat hlast), hpos0, ?_⟩
  rwa [value_ofNat hlast] at hpos1

include hq hr hqr in
omit hn in
/-- A larger probability does not have an earlier position, nor one before the first value. -/
theorem position_mono (hlast : (ofNat (n - 1)).isFinite = true) :
    0 ≤ value (position q n) ∧ value (position q n) ≤ value (position r n) := by
  have hnum := isNaN_of_le hqr
  rw [le_iff_value hnum.1 hnum.2] at hqr
  have hq0 := value_nonneg_of_le hq
  have hr1 := value_le_one_of_le hr
  have hfin : r.isFinite = true := by
    refine isFinite_of_value_le (hq0.trans hqr) ?_ (rfl : (1.0 : Float).isFinite = true)
    rwa [value_one]
  have hlast0 := value_ofNat_nonneg (n - 1)
  have hround := rounds_mul (isFinite_of_value_le hq0 hqr hfin) hlast
  exact ⟨hround.value_nonneg (mul_nonneg hq0 hlast0),
    hround.le (rounds_mul hfin hlast) (mul_le_mul_of_nonneg_right hqr hlast0)⟩

end Position

/-! ## Ranks -/

/-- What a percentile at a position is made of: the value `low` at the rank below and the value
`high` at the rank above. -/
structure Brackets (sorted : List Float) (pos low high x : Float) : Prop where
  low_eq : sorted[⌊value pos⌋₊]? = some low
  high_eq : sorted[⌈value pos⌉₊]? = some high
  on_rank : value pos = ⌊value pos⌋₊ → x = low
  off_rank : value pos ≠ ⌊value pos⌋₊ → x = interpolate low high (pos - ofNat ⌊value pos⌋₊)

namespace IsPosition

variable {n : ℕ} {pos : Float} (h : IsPosition n pos) (hn : n ≤ 2 ^ 53)
include h

theorem floor_le : ⌊value pos⌋₊ ≤ n - 1 := Nat.floor_le_of_le h.le_last

theorem ceil_le : ⌈value pos⌉₊ ≤ n - 1 := Nat.ceil_le.2 h.le_last

/-- Off the ranks, the rank above follows the rank below. -/
theorem ceil_eq_succ (hrank : value pos ≠ ⌊value pos⌋₊) : ⌈value pos⌉₊ = ⌊value pos⌋₊ + 1 := by
  refine (Nat.ceil_eq_iff (Nat.succ_ne_zero _)).2 ⟨?_, ?_⟩
  · rw [Nat.succ_sub_one]
    exact (Nat.floor_le h.nonneg).lt_of_ne' hrank
  · push_cast
    exact (Nat.lt_floor_add_one _).le

theorem floor_eq_ceil_iff : ⌊value pos⌋₊ = ⌈value pos⌉₊ ↔ value pos = ⌊value pos⌋₊ := by
  constructor
  · intro heq
    by_contra hrank
    rw [h.ceil_eq_succ hrank] at heq
    omega
  · intro hrank
    rw [hrank, Nat.floor_natCast, Nat.ceil_natCast]

include hn

theorem floor_lt : ⌊value pos⌋₊ < 2 ^ 53 := by
  have := h.floor_le
  omega

theorem rankBelow_eq : rankBelow pos = ⌊value pos⌋₊ := by
  have hfloor := h.floor_lt hn
  refine (toNat_toUInt64 h.finite h.nonneg).trans (min_eq_left ?_)
  omega

theorem lt_iff_off_rank : ofNat ⌊value pos⌋₊ < pos ↔ value pos ≠ ⌊value pos⌋₊ := by
  rw [lt_iff_value (isNaN_ofNat _) (isNaN_of_isFinite h.finite), value_ofNat (h.floor_lt hn)]
  exact (Nat.floor_le h.nonneg).lt_iff_ne'

theorem rankAbove_eq : rankAbove pos = ⌈value pos⌉₊ := by
  unfold rankAbove
  simp only
  rw [h.rankBelow_eq hn]
  split_ifs with hlt
  · exact (h.ceil_eq_succ ((h.lt_iff_off_rank hn).1 hlt)).symm
  · rw [h.lt_iff_off_rank hn, not_not] at hlt
    exact h.floor_eq_ceil_iff.2 hlt

/-- The percentile at a position exists, and it is made of the values at its ranks. -/
theorem exists_percentile? {sorted : List Float} {q : Float} (hne : sorted ≠ [])
    (hlength : sorted.length = n) (hpos : position q n = pos) :
    ∃ low high x, percentile? sorted q = some x ∧ Brackets sorted pos low high x := by
  have hlen := List.length_pos_iff.2 hne
  have hfloor := h.floor_le
  have hceil := h.ceil_le
  have hlow := List.getElem?_eq_getElem (by omega : ⌊value pos⌋₊ < sorted.length)
  have hhigh := List.getElem?_eq_getElem (by omega : ⌈value pos⌉₊ < sorted.length)
  unfold percentile?
  rw [if_neg (by simpa using hne), hlength, hpos]
  simp only [h.rankBelow_eq hn, h.rankAbove_eq hn, hlow, hhigh, h.floor_eq_ceil_iff]
  split_ifs with hrank
  · exact ⟨_, _, _, rfl, hlow, hhigh, fun _ => rfl, fun hoff => absurd hrank hoff⟩
  · exact ⟨_, _, _, rfl, hlow, hhigh, fun hon => absurd hon hrank, fun _ => rfl⟩

end IsPosition

/-! ## Ascending lists -/

section Ascending

variable {sorted : List Float} (hnum : ∀ x ∈ sorted, x.isNaN = false)
  (hasc : sorted.Pairwise (· ≤ ·))
include hnum hasc

theorem le_of_rank_le {i j : ℕ} {x y : Float} (hij : i ≤ j) (hx : sorted[i]? = some x)
    (hy : sorted[j]? = some y) : x ≤ y := by
  rcases hij.eq_or_lt with rfl | hlt
  · have hnumx := hnum x (List.mem_of_getElem? hx)
    obtain rfl : x = y := Option.some.inj (hx.symm.trans hy)
    exact le_self hnumx
  · obtain ⟨hi, rfl⟩ := List.getElem?_eq_some_iff.1 hx
    obtain ⟨hj, rfl⟩ := List.getElem?_eq_some_iff.1 hy
    exact List.pairwise_iff_getElem.1 hasc i j hi hj hlt

/-- A percentile is a number that lies between the values at its ranks. -/
theorem Brackets.between {pos low high x : Float} (h : Brackets sorted pos low high x) :
    x.isNaN = false ∧ low ≤ x ∧ x ≤ high := by
  have hle := le_of_rank_le hnum hasc (Nat.floor_le_ceil _) h.low_eq h.high_eq
  have hbetween : low ≤ x ∧ x ≤ high := by
    by_cases hrank : value pos = ⌊value pos⌋₊
    · rw [h.on_rank hrank]
      exact ⟨le_self (isNaN_of_le hle).1, hle⟩
    · rw [h.off_rank hrank]
      exact interpolate_between hle _
  exact ⟨(isNaN_of_le hbetween.1).2, hbetween⟩

end Ascending

end FigureData
