/-
  The shares, the maximum and the drawing of a column of ratios.

  A share is the rounded quotient of two counts.  Below 2 ^ 53 entries both counts are doubles,
  and the quotient of a smaller count by a larger one lies at least one step below one: a share
  is one exactly when it counts everything.

  Proved:
  * `rounds_share`, `share_mono`: shares are rounded once, so they are in the order of their
    counts.
  * `share_eq_one_iff`: a share is one exactly when it counts everything.
  * `fraction_mono`, `fraction_eq_one_iff`: the same for the ratios at or below a threshold.
  * `figuresAgree`: maximum, shares and drawing of a list of ratios tell the same.
-/
import FigureData.Proofs.Binary64.Infinite
import FigureData.Proofs.Statistics.Ratio

namespace FigureData

open Binary64

/-! ## Shares -/

section Shares

variable {j k n : ℕ} (hk : k ≤ n) (hpos : 0 < n) (hn : n < 2 ^ 53)
include hk hpos hn

/-- A share is the quotient of the counts, rounded. -/
theorem isRounded_share : IsRounded (ofNat k / ofNat n) .positive ((k : ℚ) / n) := by
  have hkn : k < 2 ^ 53 := hk.trans_lt hn
  have hvalue : value (ofNat n) ≠ 0 := by
    rw [value_ofNat hn]
    exact_mod_cast hpos.ne'
  have hround := isRounded_div (isFinite_ofNat hkn) (isFinite_ofNat hn)
    (Nat.pos_of_ne_zero (mt value_eq_zero.2 hvalue))
  rw [sign_ofNat, sign_ofNat, ← abs_value, ← abs_value, value_ofNat hkn, value_ofNat hn,
    Nat.abs_cast, Nat.abs_cast] at hround
  exact hround

theorem rounds_share : Rounds (ofNat k / ofNat n) ((k : ℚ) / n) := by
  have hquot : (0 : ℚ) ≤ k / n := by positivity
  refine ⟨.positive, ?_, fun _ => rfl, fun hneg => absurd hquot (not_le.2 hneg)⟩
  rw [abs_of_nonneg hquot]
  exact isRounded_share hk hpos hn

/-- A larger count has no smaller share. -/
theorem share_mono (hjk : j ≤ k) : ofNat j / ofNat n ≤ ofNat k / ofNat n := by
  have hj := rounds_share (hjk.trans hk) hpos hn
  have hk := rounds_share hk hpos hn
  rw [le_iff_value hj.isNaN hk.isNaN]
  refine hj.le hk ?_
  have : (j : ℚ) ≤ k := by exact_mod_cast hjk
  gcongr

omit hk in
theorem share_self : ofNat n / ofNat n = 1.0 := by
  have hround := isRounded_share le_rfl hpos hn
  have hne : (n : ℚ) ≠ 0 := by exact_mod_cast hpos.ne'
  rw [div_self hne, ← scale_oneBits] at hround
  obtain ⟨hmag, hsign⟩ := hround.eq_of_scale (by decide)
  exact eq_of_sign_magnitudeBits hsign hmag

omit hk in
/-- Where something is not counted, the share stays below one. -/
theorem share_lt_one (hlt : k < n) : ofNat k / ofNat n < 1.0 := by
  have hround := isRounded_share hlt.le hpos hn
  have hbelow : scale (oneBits - 1) = 1 - 1 / 2 ^ 53 := by norm_num [scale, oneBits]
  have hquot : (k : ℚ) / n ≤ scale (oneBits - 1) := by
    have hn0 : (0 : ℚ) < n := by exact_mod_cast hpos
    have hn1 : (n : ℚ) ≤ 2 ^ 53 := by exact_mod_cast hn.le
    have hk1 : (k : ℚ) + 1 ≤ n := by exact_mod_cast hlt
    rw [hbelow, div_le_iff₀ hn0]
    linarith
  have hmag := hround.magnitudeBits_le hquot
  rw [lt_iff hround.isNaN rfl, signedNumber_one, signedNumber_eq]
  unfold oneBits at *
  split_ifs <;> omega

/-- A share is one exactly when it counts everything. -/
theorem share_eq_one_iff : ofNat k / ofNat n = 1.0 ↔ k = n := by
  constructor
  · intro hone
    by_contra hne
    have hlt := share_lt_one hpos hn (hk.lt_of_ne hne)
    rw [hone] at hlt
    exact absurd hlt (by decide)
  · rintro rfl
    exact share_self hpos hn

theorem share_bounds : 0.0 ≤ ofNat k / ofNat n ∧ ofNat k / ofNat n ≤ 1.0 := by
  constructor
  · have hround := rounds_share hk hpos hn
    exact zero_le_iff_value.2 ⟨hround.isNaN, hround.value_nonneg (by positivity)⟩
  · rw [← share_self hpos hn]
    exact share_mono le_rfl hpos hn hk

end Shares

/-! ## Ratios at or below a threshold -/

/-- How many ratios are at or below a threshold. -/
def countAtOrBelow (ratios : List Float) (threshold : Float) : ℕ :=
  ratios.countP fun x => decide (x ≤ threshold)

theorem countAtOrBelow_le (ratios : List Float) (threshold : Float) :
    countAtOrBelow ratios threshold ≤ ratios.length := List.countP_le_length

theorem countAtOrBelow_mono {t u : Float} (h : t ≤ u) (ratios : List Float) :
    countAtOrBelow ratios t ≤ countAtOrBelow ratios u := by
  refine List.countP_mono_left ?_
  intro x _ hx
  exact decide_eq_true (le_of_le_of_le (of_decide_eq_true hx) h)

theorem countAtOrBelow_eq_length_iff {ratios : List Float} {threshold : Float} :
    countAtOrBelow ratios threshold = ratios.length ↔ ∀ x ∈ ratios, x ≤ threshold := by
  unfold countAtOrBelow
  rw [List.countP_eq_length]
  simp only [decide_eq_true_eq]

theorem fractionAtOrBelow_of_ne_nil {ratios : List Float} (hne : ratios ≠ [])
    (threshold : Float) : fractionAtOrBelow ratios threshold =
      ofNat (countAtOrBelow ratios threshold) / ofNat ratios.length := by
  unfold fractionAtOrBelow countAtOrBelow
  rw [if_neg (by simpa using hne), List.countP_eq_length_filter]

section Fractions

variable {ratios : List Float} (hlength : ratios.length < 2 ^ 53)
include hlength

theorem fraction_bounds (threshold : Float) :
    0.0 ≤ fractionAtOrBelow ratios threshold ∧ fractionAtOrBelow ratios threshold ≤ 1.0 := by
  by_cases hne : ratios = []
  · subst hne
    show (0.0 : Float) ≤ 0.0 ∧ (0.0 : Float) ≤ 1.0
    decide
  · rw [fractionAtOrBelow_of_ne_nil hne]
    exact share_bounds (countAtOrBelow_le ..) (List.length_pos_iff.2 hne) hlength

/-- A larger threshold has no smaller share. -/
theorem fraction_mono {t u : Float} (h : t ≤ u) :
    fractionAtOrBelow ratios t ≤ fractionAtOrBelow ratios u := by
  by_cases hne : ratios = []
  · subst hne
    show (0.0 : Float) ≤ 0.0
    decide
  · rw [fractionAtOrBelow_of_ne_nil hne, fractionAtOrBelow_of_ne_nil hne]
    exact share_mono (countAtOrBelow_le ..) (List.length_pos_iff.2 hne) hlength
      (countAtOrBelow_mono h ratios)

/-- The share is one exactly when there are ratios and none is above the threshold. -/
theorem fraction_eq_one_iff {threshold : Float} :
    fractionAtOrBelow ratios threshold = 1.0 ↔ ratios ≠ [] ∧ ∀ x ∈ ratios, x ≤ threshold := by
  by_cases hne : ratios = []
  · subst hne
    exact iff_of_false (by decide : ¬(0.0 : Float) = 1.0) fun h => h.1 rfl
  · rw [fractionAtOrBelow_of_ne_nil hne,
      share_eq_one_iff (countAtOrBelow_le ..) (List.length_pos_iff.2 hne) hlength,
      countAtOrBelow_eq_length_iff, and_iff_right hne]

theorem fraction_lt_one {threshold x : Float} (hx : x ∈ ratios) (habove : ¬x ≤ threshold) :
    fractionAtOrBelow ratios threshold < 1.0 := by
  have hne : ratios ≠ [] := List.ne_nil_of_mem hx
  have hlt : countAtOrBelow ratios threshold < ratios.length :=
    (countAtOrBelow_le ..).lt_of_ne fun h => habove (countAtOrBelow_eq_length_iff.1 h x hx)
  rw [fractionAtOrBelow_of_ne_nil hne]
  exact share_lt_one (List.length_pos_iff.2 hne) hlength hlt

end Fractions

/-! ## What the figures of a list of ratios say -/

/-- Maximum, shares and drawing of a list of ratios tell the same. -/
structure FiguresAgree (ratios : List Float) : Prop where
  /-- Only a list without ratios has no number as maximum. -/
  isNaN_maximum : (maximum ratios).isNaN = true ↔ ratios = []
  maximum_mem : ratios ≠ [] → maximum ratios ∈ ratios ∧ ∀ x ∈ ratios, x ≤ maximum ratios
  bounds : ∀ t, 0.0 ≤ fractionAtOrBelow ratios t ∧ fractionAtOrBelow ratios t ≤ 1.0
  mono : ∀ t u, t ≤ u → fractionAtOrBelow ratios t ≤ fractionAtOrBelow ratios u
  eq_one_iff : ∀ t, fractionAtOrBelow ratios t = 1.0 ↔ ratios ≠ [] ∧ ∀ x ∈ ratios, x ≤ t
  /-- The curve is split exactly when a ratio exceeds one. -/
  split_iff : (∃ m f, CurveBranch.ofRatios ratios = .withOutliers m f) ↔ ∃ x ∈ ratios, 1.0 < x
  /-- The split repeats the maximum and the share at or below one, which is not everything. -/
  split : ∀ m f, CurveBranch.ofRatios ratios = .withOutliers m f →
    m = maximum ratios ∧ f = fractionAtOrBelow ratios 1.0 ∧ f < 1.0

theorem CurveBranch.ofRatios_eq_withOutliers_iff {ratios : List Float} {m f : Float} :
    CurveBranch.ofRatios ratios = .withOutliers m f ↔
      1.0 < maximum ratios ∧ m = maximum ratios ∧ f = fractionAtOrBelow ratios 1.0 := by
  unfold CurveBranch.ofRatios
  constructor
  · intro h
    split_ifs at h with hlt
    cases h
    exact ⟨hlt, rfl, rfl⟩
  · rintro ⟨hlt, rfl, rfl⟩
    exact if_pos hlt

theorem isNaN_maximum_iff {ratios : List Float} (hnum : ∀ x ∈ ratios, x.isNaN = false) :
    (maximum ratios).isNaN = true ↔ ratios = [] := by
  constructor
  · intro hnan
    by_contra hne
    rw [hnum _ (maximum_spec hnum hne).1] at hnan
    cases hnan
  · rintro rfl
    rfl

theorem figuresAgree {ratios : List Float} (hnum : ∀ x ∈ ratios, x.isNaN = false)
    (hlength : ratios.length < 2 ^ 53) : FiguresAgree ratios where
  isNaN_maximum := isNaN_maximum_iff hnum
  maximum_mem hne := by
    obtain ⟨hmem, hlast⟩ := maximum_spec hnum hne
    exact ⟨hmem, fun x hx => le_of_totalLe (hnum x hx) (hnum _ hmem) (hlast x hx)⟩
  bounds := fraction_bounds hlength
  mono _ _ h := fraction_mono hlength h
  eq_one_iff _ := fraction_eq_one_iff hlength
  split_iff := by
    rw [← one_lt_maximum_iff hnum]
    constructor
    · rintro ⟨m, f, h⟩
      exact (CurveBranch.ofRatios_eq_withOutliers_iff.1 h).1
    · intro hlt
      exact ⟨_, _, CurveBranch.ofRatios_eq_withOutliers_iff.2 ⟨hlt, rfl, rfl⟩⟩
  split m f h := by
    obtain ⟨hlt, rfl, rfl⟩ := CurveBranch.ofRatios_eq_withOutliers_iff.1 h
    obtain ⟨x, hx, habove⟩ := (one_lt_maximum_iff hnum).1 hlt
    exact ⟨rfl, rfl, fraction_lt_one hlength hx (MedianRatio.le_one_of_lt habove)⟩

end FigureData
