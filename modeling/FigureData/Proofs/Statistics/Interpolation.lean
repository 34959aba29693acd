/-
  Interpolation between two numbers, clamped to them.

  The point between the neighbours is computed with three rounded operations, any of which may
  overflow, and it is no number where infinite neighbours cancel.  The clamp takes the lower
  neighbour for what is no number, and a point never comes back once it is a number.

  Proved:
  * `interpolate_spec`: what the clamp makes of the computed point.
  * `within_interpolate`, `interpolate_between`: the clamped value lies between any two bounds of
    its neighbours, and between them.
  * `interpolant_precedes`: a larger weight does not move the computed point back.
  * `interpolate_mono`: nor the interpolated value, infinite neighbours included.
-/
import FigureData.Proofs.Binary64.Infinite
import FigureData.Statistics.Percentile

namespace FigureData

open Binary64

/-! ## Clamping -/

section Clamp

variable {x y : Float} (hx : x.isNaN = false) (hy : y.isNaN = false)
include hx hy

theorem signedNumber_le_of_totalLe (h : totalLe x y = true) : signedNumber x ≤ signedNumber y :=
  (le_iff hx hy).1 (le_of_totalLe hx hy h)

theorem signedNumber_le_of_not_totalLe (h : ¬ totalLe x y = true) :
    signedNumber y ≤ signedNumber x := by
  have htotal := totalLe_total x y
  rw [Bool.eq_false_iff.2 h, Bool.false_or] at htotal
  exact signedNumber_le_of_totalLe hy hx htotal

theorem larger_number : (larger x y).isNaN = false ∧
    signedNumber (larger x y) = max (signedNumber x) (signedNumber y) := by
  unfold larger
  rw [if_neg (by rw [hx]; decide), if_neg (by rw [hy]; decide)]
  split_ifs with hle
  · exact ⟨hy, (max_eq_right (signedNumber_le_of_totalLe hx hy hle)).symm⟩
  · exact ⟨hx, (max_eq_left (signedNumber_le_of_not_totalLe hx hy hle)).symm⟩

theorem smaller_number : (smaller x y).isNaN = false ∧
    signedNumber (smaller x y) = min (signedNumber x) (signedNumber y) := by
  unfold smaller
  rw [if_neg (by rw [hx]; decide), if_neg (by rw [hy]; decide)]
  split_ifs with hle
  · exact ⟨hx, (min_eq_left (signedNumber_le_of_totalLe hx hy hle)).symm⟩
  · exact ⟨hy, (min_eq_right (signedNumber_le_of_not_totalLe hx hy hle)).symm⟩

end Clamp

/-- The point between two neighbours before it is clamped to them. -/
def interpolant (low high weight : Float) : Float := low + (high - low) * weight

theorem interpolate_eq (low high weight : Float) :
    interpolate low high weight = smaller (larger (interpolant low high weight) low) high := rfl

/-- A number between two bounds. -/
def Within (a b : ℤ) (x : Float) : Prop :=
  x.isNaN = false ∧ a ≤ signedNumber x ∧ signedNumber x ≤ b

section Neighbours

variable {low high : Float} (hlow : low.isNaN = false) (hhigh : high.isNaN = false)
include hlow hhigh

/-- What the clamp makes of the computed point. -/
theorem interpolate_spec (weight : Float) : (interpolate low high weight).isNaN = false ∧
    signedNumber (interpolate low high weight) =
      min (if (interpolant low high weight).isNaN then signedNumber low
        else max (signedNumber (interpolant low high weight)) (signedNumber low))
        (signedNumber high) := by
  rw [interpolate_eq]
  generalize interpolant low high weight = t
  by_cases ht : t.isNaN = true
  · rw [if_pos ht, show larger t low = low from if_pos ht]
    exact smaller_number hlow hhigh
  · rw [if_neg ht]
    obtain ⟨hnum, hlarger⟩ := larger_number (Bool.eq_false_iff.2 ht) hlow
    rw [← hlarger]
    exact smaller_number hnum hhigh

omit hlow hhigh in
/-- Whatever the arithmetic between them gives, an interpolated value stays between its
neighbours. -/
theorem within_interpolate {a b : ℤ} (hlow : Within a b low) (hhigh : Within a b high)
    (weight : Float) : Within a b (interpolate low high weight) := by
  obtain ⟨hnum, hvalue⟩ := interpolate_spec hlow.1 hhigh.1 weight
  obtain ⟨-, hlow1, hlow2⟩ := hlow
  obtain ⟨-, hhigh1, hhigh2⟩ := hhigh
  refine ⟨hnum, ?_⟩
  rw [hvalue]
  split_ifs <;> omega

omit hlow hhigh in
/-- In particular between them. -/
theorem interpolate_between (hle : low ≤ high) (weight : Float) :
    low ≤ interpolate low high weight ∧ interpolate low high weight ≤ high := by
  obtain ⟨hlow, hhigh⟩ := isNaN_of_le hle
  rw [le_iff hlow hhigh] at hle
  obtain ⟨hnum, hlow', hhigh'⟩ := within_interpolate (a := signedNumber low)
    (b := signedNumber high) ⟨hlow, le_rfl, hle⟩ ⟨hhigh, hle, le_rfl⟩ weight
  exact ⟨(le_iff hlow hnum).2 hlow', (le_iff hnum hhigh).2 hhigh'⟩

/-! ## Growing weights -/

/-- Once `t` is a number, so is `u`, and it does not come before. -/
def Precedes (t u : Float) : Prop :=
  t.isNaN = false → u.isNaN = false ∧ value t ≤ value u

omit hlow hhigh in
theorem precedes_of_isNaN {t u : Float} (h : t.isNaN = true) : Precedes t u := by
  intro hnum
  rw [h] at hnum
  cases hnum

theorem interpolate_mono_of_precedes (hle : low ≤ high) {v w : Float}
    (h : Precedes (interpolant low high v) (interpolant low high w)) :
    interpolate low high v ≤ interpolate low high w := by
  obtain ⟨hv, hv'⟩ := interpolate_spec hlow hhigh v
  obtain ⟨hw, hw'⟩ := interpolate_spec hlow hhigh w
  rw [le_iff hlow hhigh] at hle
  rw [le_iff hv hw, hv', hw']
  by_cases hnum : (interpolant low high v).isNaN = true
  · rw [if_pos hnum]
    split_ifs <;> omega
  · obtain ⟨hnum', horder⟩ := h (Bool.eq_false_iff.2 hnum)
    rw [value_le_value] at horder
    rw [if_neg hnum, hnum', if_neg (by decide)]
    omega

section Weights

variable {v w : Float} (hv : v.isFinite = true) (hw : w.isFinite = true) (h0 : 0 ≤ value v)
  (hvw : value v ≤ value w)

include hv h0 in
omit hlow in
/-- From an infinite lower neighbour no point is reached. -/
theorem isNaN_interpolant_of_infinite (hinf : IsInfinite (sign low) low) :
    (interpolant low high v).isNaN = true := by
  unfold interpolant
  rcases sub_infinite hhigh hinf with hspan | hspan
  · exact isNaN_add_right (isNaN_mul_left hspan)
  rcases h0.eq_or_lt with hzero | hpos
  · exact isNaN_add_right (isNaN_infinite_mul hspan hv hzero.symm)
  · exact isNaN_infinite_add hinf (infinite_mul hspan hv hpos)

include hv hw h0 hvw in
omit hlow hhigh in
/-- Over an infinite span, every weight but zero reaches the same infinity. -/
theorem interpolant_precedes_of_infinite (hfin : low.isFinite = true)
    (hspan : IsInfinite (sign (high - low)) (high - low)) :
    Precedes (interpolant low high v) (interpolant low high w) := by
  unfold interpolant
  rcases h0.eq_or_lt with hzero | hpos
  · exact precedes_of_isNaN (isNaN_add_right (isNaN_infinite_mul hspan hv hzero.symm))
  · have hv' := add_infinite hfin (infinite_mul hspan hv hpos)
    have hw' := add_infinite hfin (infinite_mul hspan hw (hpos.trans_le hvw))
    exact fun _ => ⟨hw'.isNaN, (value_eq_value.2 (hv'.signedNumber_eq hw')).le⟩

include hv hw h0 hvw in
omit hlow hhigh in
/-- Over a finite span, each of the three operations keeps the order, also where the step of the
larger weight overflows. -/
theorem interpolant_precedes_of_finite (hfin : low.isFinite = true)
    (hspan : (high - low).isFinite = true) (hspan0 : 0 ≤ value (high - low)) :
    Precedes (interpolant low high v) (interpolant low high w) := by
  unfold interpolant
  have hstepv := rounds_mul hspan hv
  have hstepw := rounds_mul hspan hw
  have hsteps : value ((high - low) * v) ≤ value ((high - low) * w) :=
    hstepv.le hstepw (mul_le_mul_of_nonneg_left hvw hspan0)
  have hstepv0 := hstepv.value_nonneg (mul_nonneg hspan0 h0)
  rcases isFinite_or_isInfinite hstepw.isNaN with hfinw | hinfw
  · have hfinv : ((high - low) * v).isFinite = true :=
      isFinite_of_value_le hstepv0 hsteps hfinw
    have hpointw := rounds_add hfin hfinw
    exact fun _ => ⟨hpointw.isNaN, (rounds_add hfin hfinv).le hpointw (by linarith)⟩
  · have hpointw := add_infinite hfin hinfw
    have hsign := sign_of_value_pos (hinfw.value_pos (hstepv0.trans hsteps))
    exact fun hnum => ⟨hpointw.isNaN, (hpointw.value_bounds hnum).1 hsign⟩

include hv hw h0 hvw in
/-- A larger weight does not move the computed point back. -/
theorem interpolant_precedes (hle : low ≤ high) :
    Precedes (interpolant low high v) (interpolant low high w) := by
  rcases isFinite_or_isInfinite hlow with hfin | hinf
  · rcases isFinite_or_isInfinite hhigh with hfin' | hinf'
    · have hround := rounds_sub hfin' hfin
      have hspan0 : 0 ≤ value (high - low) := by
        rw [le_iff_value hlow hhigh] at hle
        exact hround.value_nonneg (by linarith)
      -- The difference of finite neighbours may overflow.
      rcases isFinite_or_isInfinite hround.isNaN with hspan | hspan
      · exact interpolant_precedes_of_finite hv hw h0 hvw hfin hspan hspan0
      · exact interpolant_precedes_of_infinite hv hw h0 hvw hfin hspan
    · have hspan := infinite_sub hinf' hfin
      exact interpolant_precedes_of_infinite hv hw h0 hvw hfin ⟨hspan.1, rfl⟩
  · exact precedes_of_isNaN (isNaN_interpolant_of_infinite hhigh hv h0 hinf)

include hv hw h0 hvw in
/-- A larger weight does not move the interpolated value back. -/
theorem interpolate_mono (hle : low ≤ high) :
    interpolate low high v ≤ interpolate low high w :=
  interpolate_mono_of_precedes hlow hhigh hle
    (interpolant_precedes hlow hhigh hv hw h0 hvw hle)

end Weights

end Neighbours

end FigureData
