/-
  The non-negative doubles on a scale, and the place nearest to a rational.

  The bits below the sign number the non-negative doubles from zero upwards.
  `scale k` is the value of number `k`.  The scale has no end: it goes on past
  the largest double, and the number of infinity stands at 2 ^ 1024.

  Proved:
  * `scale_place`: the value of the number that an exponent and a significand make.
  * `strictMono_scale`: a larger number has a larger value.
  * `gap_le`, `scale_lt_gap`: how far neighbours lie apart.
  * `IsNearest.le`: rounding to the nearest number is monotone.
  * `isNearest_scale`: it keeps a value that is on the scale.
  * `IsNearest.scale_le`: it errs upwards by at most one part in 2 ^ 53.
  * `isNearest_of_lt_half`, `isNearest_of_half`, `isNearest_of_half_lt`: which number is
    nearest, by where a rational lies between two neighbours.
-/
import Mathlib.Algebra.Order.Field.Power
import Mathlib.Order.Monotone.Basic
import Mathlib.Tactic.Linarith
import Mathlib.Tactic.NormNum
import Mathlib.Tactic.Positivity
import Mathlib.Tactic.Ring

namespace FigureData.Binary64

/-! ## The scale -/

/-- The number of infinity. -/
def infinityBits : ℕ := 2047 * 2 ^ 52

/-- Value of the non-negative double with this number. -/
def scale (k : ℕ) : ℚ :=
  if k / 2 ^ 52 = 0 then (k % 2 ^ 52 : ℕ) * (2 : ℚ) ^ (-1074 : ℤ)
  else (k % 2 ^ 52 + 2 ^ 52 : ℕ) * (2 : ℚ) ^ ((k / 2 ^ 52 : ℕ) - 1075 : ℤ)

/-- The number of a double with significand `n` and exponent `s - 1074`. -/
def place (s n : ℕ) : ℕ := s * 2 ^ 52 + n

theorem scale_place {s n : ℕ} (hn : n ≤ 2 ^ 53) (h : 2 ^ 52 ≤ n ∨ s = 0) :
    scale (place s n) = n * (2 : ℚ) ^ (s - 1074 : ℤ) := by
  unfold scale place
  by_cases hlow : n < 2 ^ 52
  · obtain rfl : s = 0 := by omega
    have hq : (0 * 2 ^ 52 + n) / 2 ^ 52 = 0 := by omega
    have hr : (0 * 2 ^ 52 + n) % 2 ^ 52 = n := by omega
    rw [if_pos hq, hr]
    norm_num
  by_cases htop : n = 2 ^ 53
  -- The significand is full: the same value one exponent further, with half of it.
  · have hq : (s * 2 ^ 52 + n) / 2 ^ 52 = s + 2 := by omega
    have hr : (s * 2 ^ 52 + n) % 2 ^ 52 = 0 := by omega
    have he : ((s + 2 : ℕ) - 1075 : ℤ) = (s - 1074 : ℤ) + 1 := by push_cast; ring
    rw [hq, hr, if_neg (by omega), htop, he, zpow_add_one₀ (by norm_num)]
    push_cast
    ring
  · have hq : (s * 2 ^ 52 + n) / 2 ^ 52 = s + 1 := by omega
    have hr : (s * 2 ^ 52 + n) % 2 ^ 52 + 2 ^ 52 = n := by omega
    have he : ((s + 1 : ℕ) - 1075 : ℤ) = (s - 1074 : ℤ) := by push_cast; ring
    rw [hq, hr, if_neg (by omega), he]

/-- Every number has a significand and an exponent. -/
theorem exists_place (k : ℕ) :
    ∃ s n, k = place s n ∧ n < 2 ^ 53 ∧ (2 ^ 52 ≤ n ∨ s = 0) := by
  refine ⟨k / 2 ^ 52 - 1, k - (k / 2 ^ 52 - 1) * 2 ^ 52, ?_, ?_, ?_⟩
  · unfold place; omega
  · omega
  · omega

theorem scale_succ_place {s n : ℕ} (hn : n < 2 ^ 53) (h : 2 ^ 52 ≤ n ∨ s = 0) :
    scale (place s n + 1) = scale (place s n) + (2 : ℚ) ^ (s - 1074 : ℤ) := by
  have hnext : place s n + 1 = place s (n + 1) := by unfold place; omega
  rw [hnext, scale_place (by omega) (by omega), scale_place (by omega) h]
  push_cast
  ring

theorem scale_lt_succ (k : ℕ) : scale k < scale (k + 1) := by
  obtain ⟨s, n, rfl, hn, h⟩ := exists_place k
  rw [scale_succ_place hn h]
  have : (0 : ℚ) < 2 ^ (s - 1074 : ℤ) := by positivity
  linarith

theorem strictMono_scale : StrictMono scale := strictMono_nat_of_lt_succ scale_lt_succ

theorem scale_le_scale {j k : ℕ} : scale j ≤ scale k ↔ j ≤ k := strictMono_scale.le_iff_le

theorem scale_lt_scale {j k : ℕ} : scale j < scale k ↔ j < k := strictMono_scale.lt_iff_lt

@[simp] theorem scale_zero : scale 0 = 0 := by norm_num [scale]

theorem scale_nonneg (k : ℕ) : 0 ≤ scale k := by
  rw [← scale_zero]
  exact scale_le_scale.2 (Nat.zero_le k)

theorem scale_pos {k : ℕ} : 0 < scale k ↔ 0 < k := by
  rw [← scale_zero]
  exact scale_lt_scale

/-- A value has less than 54 significant bits. -/
theorem scale_lt_gap (k : ℕ) : scale k < 2 ^ 53 * (scale (k + 1) - scale k) := by
  obtain ⟨s, n, rfl, hn, h⟩ := exists_place k
  rw [scale_succ_place hn h, scale_place (by omega) h]
  have hpow : (0 : ℚ) < 2 ^ (s - 1074 : ℤ) := by positivity
  have hn' : (n : ℚ) < 2 ^ 53 := by exact_mod_cast hn
  have := mul_lt_mul_of_pos_right hn' hpow
  linarith

/-- From the smallest number with a full significand on, a value has at least 53
significant bits. -/
theorem gap_le {k : ℕ} (hk : 2 ^ 52 ≤ k) : scale (k + 1) - scale k ≤ scale k / 2 ^ 52 := by
  obtain ⟨s, n, rfl, hn, h⟩ := exists_place k
  have hn52 : 2 ^ 52 ≤ n := by
    rcases h with h | rfl
    · exact h
    · simpa [place] using hk
  rw [scale_succ_place hn h, scale_place (by omega) h]
  have hpow : (0 : ℚ) < 2 ^ (s - 1074 : ℤ) := by positivity
  have hn' : (2 : ℚ) ^ 52 ≤ n := by exact_mod_cast hn52
  have := mul_le_mul_of_nonneg_right hn' hpow.le
  linarith

/-! ## Midpoints -/

/-- The middle between a number and the next. -/
def midpoint (k : ℕ) : ℚ := (scale k + scale (k + 1)) / 2

theorem scale_lt_midpoint (k : ℕ) : scale k < midpoint k := by
  have := scale_lt_succ k
  unfold midpoint
  linarith

theorem midpoint_lt_scale_succ (k : ℕ) : midpoint k < scale (k + 1) := by
  have := scale_lt_succ k
  unfold midpoint
  linarith

theorem strictMono_midpoint : StrictMono midpoint :=
  strictMono_nat_of_lt_succ fun k =>
    (midpoint_lt_scale_succ k).trans (scale_lt_midpoint (k + 1))

theorem midpoint_place {s n : ℕ} (hn : n < 2 ^ 53) (h : 2 ^ 52 ≤ n ∨ s = 0) :
    midpoint (place s n) = (n + 1 / 2) * (2 : ℚ) ^ (s - 1074 : ℤ) := by
  unfold midpoint
  rw [scale_succ_place hn h, scale_place (by omega) h]
  ring

/-! ## The nearest number -/

/-- Number `k` is nearest to `x`; between two that are equally near, the even one is. -/
structure IsNearest (x : ℚ) (k : ℕ) : Prop where
  above : ∀ j, j + 1 = k → midpoint j < x ∨ midpoint j = x ∧ k % 2 = 0
  below : x < midpoint k ∨ x = midpoint k ∧ k % 2 = 0

namespace IsNearest

variable {x y : ℚ} {j k : ℕ}

theorem midpoint_le (h : IsNearest x k) (hj : j + 1 = k) : midpoint j ≤ x := by
  rcases h.above j hj with h | h
  · exact h.le
  · exact h.1.le

theorem le_midpoint (h : IsNearest x k) : x ≤ midpoint k := by
  rcases h.below with h | h
  · exact h.le
  · exact h.1.le

/-- Rounding to the nearest number is monotone. -/
theorem le (hx : IsNearest x j) (hy : IsNearest y k) (hxy : x ≤ y) : j ≤ k := by
  by_contra hlt
  obtain ⟨i, rfl⟩ : ∃ i, j = i + 1 := ⟨j - 1, by omega⟩
  have hki : midpoint k ≤ midpoint i := strictMono_midpoint.monotone (by omega)
  -- Both rationals would be the same midpoint, and both of its neighbours even.
  have hxi := hx.midpoint_le rfl
  have hyk := hy.le_midpoint
  obtain rfl : k = i := strictMono_midpoint.injective (by linarith)
  rcases hx.above k rfl with h | h
  · linarith
  · rcases hy.below with h' | h'
    · linarith
    · omega

theorem unique (hj : IsNearest x j) (hk : IsNearest x k) : j = k :=
  Nat.le_antisymm (hj.le hk le_rfl) (hk.le hj le_rfl)

/-- A rational beyond the middle rounds to a later number. -/
theorem lt_of_midpoint_lt (h : IsNearest x k) (hj : midpoint j < x) : j < k := by
  by_contra hle
  have := strictMono_midpoint.monotone (by omega : k ≤ j)
  have := h.le_midpoint
  linarith

end IsNearest

/-- A value on the scale is its own nearest. -/
theorem isNearest_scale (k : ℕ) : IsNearest (scale k) k where
  above j hj := by
    subst hj
    exact .inl (midpoint_lt_scale_succ j)
  below := .inl (scale_lt_midpoint k)

namespace IsNearest

variable {x : ℚ} {j k : ℕ}

theorem le_of_le_scale (h : IsNearest x k) (hx : x ≤ scale j) : k ≤ j :=
  h.le (isNearest_scale j) hx

theorem le_of_scale_le (h : IsNearest x k) (hx : scale j ≤ x) : j ≤ k :=
  (isNearest_scale j).le h hx

/-- Upwards, rounding errs by at most one part in 2 ^ 53. -/
theorem scale_le (h : IsNearest x k) (hk : 2 ^ 52 < k) : scale k ≤ x * (1 + 1 / 2 ^ 53) := by
  obtain ⟨j, rfl⟩ : ∃ j, k = j + 1 := ⟨k - 1, by omega⟩
  have hmid := h.midpoint_le rfl
  have hgap := gap_le (by omega : 2 ^ 52 ≤ j)
  have hlow := (scale_lt_midpoint j).le
  unfold midpoint at hmid hlow
  linarith

end IsNearest

/-! ## Nearest by the position between neighbours -/

section Between

variable {x : ℚ} {s n : ℕ}

theorem isNearest_of_lt_half (hn : n < 2 ^ 53) (h : 2 ^ 52 ≤ n ∨ s = 0)
    (hlow : n * (2 : ℚ) ^ (s - 1074 : ℤ) ≤ x)
    (hhigh : x < (n + 1 / 2) * (2 : ℚ) ^ (s - 1074 : ℤ)) : IsNearest x (place s n) where
  above j hj := by
    left
    rw [← scale_place (by omega) h, ← hj] at hlow
    exact (midpoint_lt_scale_succ j).trans_le hlow
  below := by
    left
    rwa [midpoint_place hn h]

theorem isNearest_of_half_lt (hn : n < 2 ^ 53) (h : 2 ^ 52 ≤ n ∨ s = 0)
    (hlow : (n + 1 / 2) * (2 : ℚ) ^ (s - 1074 : ℤ) < x)
    (hhigh : x < (n + 1) * (2 : ℚ) ^ (s - 1074 : ℤ)) : IsNearest x (place s (n + 1)) where
  above j hj := by
    left
    obtain rfl : j = place s n := by unfold place at *; omega
    rwa [midpoint_place hn h]
  below := by
    left
    have hnext : x < scale (place s (n + 1)) := by
      rw [scale_place (by omega) (by omega)]
      exact_mod_cast hhigh
    exact hnext.trans (scale_lt_midpoint _)

theorem isNearest_of_half (hn : n < 2 ^ 53) (h : 2 ^ 52 ≤ n ∨ s = 0)
    (hx : x = (n + 1 / 2) * (2 : ℚ) ^ (s - 1074 : ℤ)) : IsNearest x (place s (n + n % 2)) := by
  rw [← midpoint_place hn h] at hx
  subst hx
  rcases Nat.mod_two_eq_zero_or_one n with hpar | hpar
  · rw [hpar]
    refine ⟨fun j hj => .inl ?_, .inr ⟨rfl, ?_⟩⟩
    · exact strictMono_midpoint (by unfold place at *; omega)
    · unfold place; omega
  · rw [hpar]
    have hnext : place s (n + 1) = place s n + 1 := by unfold place; omega
    rw [hnext]
    refine ⟨?_, .inl (strictMono_midpoint (by omega))⟩
    intro j hj
    obtain rfl : j = place s n := by omega
    exact .inr ⟨rfl, by unfold place; omega⟩

end Between

end FigureData.Binary64
