/-
  Ratios of medians against the medians themselves.

  A ratio follows rules of rank: parity for equal medians, the sentinel for a zero
  baseline, and only then the rounded quotient.  For medians that are finite and not
  negative all of them agree with the comparison of the medians.

  Proved:
  * `IsCost.median`: the median of costs is a cost.
  * `MedianRatio.between_spec`: the ratio of two costs is a number, and at most one exactly
    when the candidate median does not exceed the baseline median.
  * `MedianRatio.rule_eq_bothZero_iff`: ties at zero are recognised as such.
  * `maximum_spec`: the largest of numbers is one of them.
  * `one_lt_maximum_iff`: the largest ratio exceeds one exactly when some ratio does.
  * `CurveBranch.ofRatios_eq_bounded_iff`: the curve is drawn in one piece exactly when
    every ratio is at most one.
-/
import FigureData.Proofs.Statistics.Percentile
import FigureData.Statistics.Comparison
import FigureData.Statistics.Distribution

namespace FigureData

open Binary64

/-! ## Ratios -/

/-- A median of finite measurements that are not negative. -/
structure IsCost (x : Float) : Prop where
  finite : x.isFinite = true
  nonneg : 0.0 ≤ x

namespace IsCost

variable {x : Float}

theorem isNaN (h : IsCost x) : x.isNaN = false := isNaN_of_isFinite h.finite

theorem signedNumber_nonneg (h : IsCost x) : 0 ≤ signedNumber x :=
  (zero_le_iff h.isNaN).1 h.nonneg

theorem beq_zero_iff (h : IsCost x) : (x == 0.0) = true ↔ signedNumber x = 0 :=
  beq_iff h.isNaN rfl

/-- A cost that is not zero is positive. -/
theorem zero_lt (h : IsCost x) (hx : ¬ (x == 0.0) = true) : 0.0 < x := by
  rw [h.beq_zero_iff] at hx
  rw [zero_lt_iff h.isNaN]
  have := h.signedNumber_nonneg
  omega

/-- Costs are the numbers between zero and the largest double. -/
theorem iff_within : IsCost x ↔ Within 0 (infinityBits - 1) x := by
  constructor
  · intro h
    have hbits := isFinite_iff.1 h.finite
    have hmag := signedNumber_of_nonneg h.signedNumber_nonneg
    exact ⟨h.isNaN, h.signedNumber_nonneg, by omega⟩
  · intro ⟨hnan, hlow, hhigh⟩
    have hmag := signedNumber_of_nonneg hlow
    exact ⟨isFinite_iff.2 (by omega), (zero_le_iff hnan).2 hlow⟩

/-- The median of costs is a cost. -/
theorem median {values : List Float} (hall : ∀ x ∈ values, IsCost x) (hne : values ≠ [])
    {q : Float} (h : percentile? (sort values) q = some x) : IsCost x := by
  rw [iff_within]
  have hwithin : ∀ y ∈ sort values, Within 0 (infinityBits - 1) y := by
    intro y hy
    exact iff_within.1 (hall y ((sort_perm values).mem_iff.1 hy))
  exact percentile?_bounds hwithin (sort_ne_nil hne) h

end IsCost

namespace MedianRatio

variable {b c sentinel : Float} (hb : IsCost b) (hc : IsCost c) (hs : 1.0 < sentinel)

theorem le_one_of_lt (hs : 1.0 < sentinel) : ¬ sentinel ≤ 1.0 := by
  have hnan := isNaN_of_lt hs
  rw [lt_iff rfl hnan] at hs
  rw [le_iff hnan rfl]
  omega

include hb hc hs

/-- The ratio of two costs is a number, and at most one exactly when the candidate does not
exceed the baseline. -/
theorem between_spec : (between b c sentinel).value.isNaN = false ∧
    ((between b c sentinel).value ≤ 1.0 ↔ c ≤ b) := by
  unfold between
  rw [hb.isNaN, hc.isNaN, if_neg (by decide)]
  by_cases hparity : (c == b) = true
  -- Equal medians: parity, also at zero.
  · have hle : c ≤ b := by
      rw [beq_iff hc.isNaN hb.isNaN] at hparity
      rw [le_iff hc.isNaN hb.isNaN]
      omega
    rw [if_pos hparity]
    split
    · exact ⟨rfl, iff_of_true (by decide) hle⟩
    · exact ⟨rfl, iff_of_true (by decide) hle⟩
  rw [if_neg hparity]
  by_cases hzero : (b == 0.0) = true
  -- A zero baseline and a larger candidate: the sentinel exceeds one.
  · rw [if_pos hzero]
    refine ⟨isNaN_of_lt hs, iff_of_false (le_one_of_lt hs) ?_⟩
    rw [beq_iff hc.isNaN hb.isNaN] at hparity
    rw [hb.beq_zero_iff] at hzero
    rw [le_iff hc.isNaN hb.isNaN]
    have := hc.signedNumber_nonneg
    omega
  · rw [if_neg hzero]
    have hpos := hb.zero_lt hzero
    have hmag : 0 < magnitudeBits b := by
      rw [zero_lt_iff hb.isNaN] at hpos
      have := signedNumber_of_nonneg hpos.le
      omega
    exact ⟨isNaN_div hc.finite hb.finite hmag, div_le_one_iff hc.finite hb.finite hc.nonneg hpos⟩

omit hs in
/-- Ties at zero are recognised as such. -/
theorem rule_eq_bothZero_iff :
    (between b c sentinel).rule = .bothZero ↔ (b == 0.0) = true ∧ (c == 0.0) = true := by
  unfold between
  rw [hb.isNaN, hc.isNaN, if_neg (by decide)]
  have hparity := beq_iff hc.isNaN hb.isNaN
  have hbzero := hb.beq_zero_iff
  have hczero := hc.beq_zero_iff
  split_ifs with heq hzero hzero
  · refine iff_of_true rfl ⟨hzero, hczero.2 ?_⟩
    rw [hparity.1 heq, hbzero.1 hzero]
  · exact iff_of_false (by simp) fun h => hzero h.1
  · refine iff_of_false (by simp) fun h => heq (hparity.2 ?_)
    rw [hbzero.1 h.1, hczero.1 h.2]
  · exact iff_of_false (by simp) fun h => hzero h.1

end MedianRatio

/-! ## The largest ratio -/

theorem totalLe_refl (x : Float) : totalLe x x = true := by
  have := totalLe_total x x
  simpa using this

/-- The larger of two numbers is one of them, and neither is after it. -/
theorem larger_spec {x y : Float} (hx : x.isNaN = false) (hy : y.isNaN = false) :
    (larger x y = x ∨ larger x y = y) ∧ totalLe x (larger x y) = true ∧
      totalLe y (larger x y) = true := by
  unfold larger
  rw [if_neg (by rw [hx]; simp), if_neg (by rw [hy]; simp)]
  split_ifs with hle
  · exact ⟨.inr rfl, hle, totalLe_refl y⟩
  · have := totalLe_total x y
    rw [Bool.eq_false_iff.2 hle, Bool.false_or] at this
    exact ⟨.inl rfl, totalLe_refl x, this⟩

theorem foldl_larger_spec (xs : List Float) {acc : Float} (hacc : acc.isNaN = false)
    (hxs : ∀ x ∈ xs, x.isNaN = false) :
    xs.foldl larger acc ∈ acc :: xs ∧ ∀ x ∈ acc :: xs, totalLe x (xs.foldl larger acc) = true := by
  induction xs generalizing acc with
  | nil => simp [totalLe_refl]
  | cons y ys ih =>
    have hy := hxs y (List.mem_cons_self ..)
    obtain ⟨hmem, hleft, hright⟩ := larger_spec hacc hy
    have hnan : (larger acc y).isNaN = false := by
      rcases hmem with h | h
      · rw [h]; exact hacc
      · rw [h]; exact hy
    have hys : ∀ x ∈ ys, x.isNaN = false := fun x hx => hxs x (List.mem_cons_of_mem _ hx)
    obtain ⟨hin, hall⟩ := ih hnan hys
    have hlarger := hall _ (List.mem_cons_self ..)
    rw [List.foldl_cons]
    constructor
    · rcases List.mem_cons.1 hin with h | h
      · rw [h]
        rcases hmem with h' | h'
        · rw [h']; exact List.mem_cons_self ..
        · rw [h']; exact List.mem_cons_of_mem _ (List.mem_cons_self ..)
      · exact List.mem_cons_of_mem _ (List.mem_cons_of_mem _ h)
    · intro x hx
      rcases List.mem_cons.1 hx with rfl | hx
      · exact totalLe_trans _ _ _ hleft hlarger
      · rcases List.mem_cons.1 hx with rfl | hx
        · exact totalLe_trans _ _ _ hright hlarger
        · exact hall x (List.mem_cons_of_mem _ hx)

/-- The largest of numbers is one of them, and none is after it. -/
theorem maximum_spec {ratios : List Float} (hnum : ∀ x ∈ ratios, x.isNaN = false)
    (hne : ratios ≠ []) :
    maximum ratios ∈ ratios ∧ ∀ x ∈ ratios, totalLe x (maximum ratios) = true := by
  have hfilter : (ratios.filter fun x => !x.isNaN) = ratios := by
    apply List.filter_eq_self.2
    intro x hx
    rw [hnum x hx]
    rfl
  unfold maximum
  rw [hfilter]
  cases ratios with
  | nil => exact absurd rfl hne
  | cons y ys =>
    have hstart : larger missing y = y := if_pos rfl
    rw [List.foldl_cons, hstart]
    rw [List.forall_mem_cons] at hnum
    exact foldl_larger_spec ys hnum.1 hnum.2

/-- The largest ratio exceeds one exactly when some ratio does. -/
theorem one_lt_maximum_iff {ratios : List Float} (hnum : ∀ x ∈ ratios, x.isNaN = false) :
    1.0 < maximum ratios ↔ ∃ x ∈ ratios, 1.0 < x := by
  by_cases hne : ratios = []
  · subst hne
    exact iff_of_false (by decide) (by simp)
  obtain ⟨hmem, hall⟩ := maximum_spec hnum hne
  constructor
  · intro h
    exact ⟨_, hmem, h⟩
  · rintro ⟨x, hx, hlt⟩
    have hle := signedNumber_le_of_totalLe (hnum x hx) (hnum _ hmem) (hall x hx)
    rw [lt_iff rfl (hnum x hx)] at hlt
    rw [lt_iff rfl (hnum _ hmem)]
    omega

/-- The curve is drawn in one piece exactly when every ratio is at most one. -/
theorem CurveBranch.ofRatios_eq_bounded_iff {ratios : List Float}
    (hnum : ∀ x ∈ ratios, x.isNaN = false) :
    CurveBranch.ofRatios ratios = .bounded ↔ ∀ x ∈ ratios, x ≤ 1.0 := by
  have hmax := one_lt_maximum_iff hnum
  unfold CurveBranch.ofRatios
  constructor
  · intro h x hx
    by_contra hle
    have hlt : 1.0 < x := by
      rw [le_iff (hnum x hx) rfl] at hle
      rw [lt_iff rfl (hnum x hx)]
      omega
    rw [if_pos (hmax.2 ⟨x, hx, hlt⟩)] at h
    exact absurd h (by simp)
  · intro h
    have hle : ¬ 1.0 < maximum ratios := by
      intro hlt
      obtain ⟨x, hx, hlt⟩ := hmax.1 hlt
      exact MedianRatio.le_one_of_lt hlt (h x hx)
    exact if_neg hle

end FigureData
