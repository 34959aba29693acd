/-
  Rounded results compare as the exact ones.

  Rounding is monotone and keeps every double, so a rounded result stays on the side of a double
  on which the exact one is.  Natural numbers below 2 ^ 53 are doubles, so rounded arithmetic
  does not pass them, and truncation finds them.

  Proved:
  * `value_le_value`, `le_iff_value`: doubles that are numbers compare as their values.
  * `Rounds.le`: of two rationals, the larger one is not rounded to a smaller double.
  * `Rounds.value_le`, `Rounds.le_value`: rounding does not pass a double.
  * `value_ofNat`: a natural number below 2 ^ 53 is a double.
  * `toNat_toUInt64`: truncation of a double that is not negative is its whole part, up to the
    largest word.
-/
import FigureData.Proofs.Binary64.Sums

namespace FigureData.Binary64

open Float.Model
open Float.Model.UnpackedFloat

variable {x y : Float} {p q : ℚ}

/-! ## Values and signed numbers -/

/-- Values are ordered as the signed numbers. -/
theorem value_le_value : value x ≤ value y ↔ signedNumber x ≤ signedNumber y := by
  unfold value signedNumber absValue
  have hx := scale_nonneg (magnitudeBits x)
  have hy := scale_nonneg (magnitudeBits y)
  cases sign x <;> cases sign y <;> simp only [Sign.apply]
  · rw [neg_le_neg_iff, neg_le_neg_iff, scale_le_scale, Nat.cast_le]
  · exact iff_of_true (by linarith) (by omega)
  -- Opposite signs the wrong way round: both are zeros.
  · constructor
    · intro h
      have hx0 : ¬ 0 < magnitudeBits x := fun hpos => by linarith [scale_pos.2 hpos]
      have hy0 : ¬ 0 < magnitudeBits y := fun hpos => by linarith [scale_pos.2 hpos]
      omega
    · intro h
      have hx0 : magnitudeBits x = 0 := by omega
      have hy0 : magnitudeBits y = 0 := by omega
      rw [hx0, hy0, scale_zero, neg_zero]
  · rw [scale_le_scale, Nat.cast_le]

theorem value_eq_value : value x = value y ↔ signedNumber x = signedNumber y := by
  rw [le_antisymm_iff, le_antisymm_iff, value_le_value, value_le_value]

/-- Doubles that are numbers compare as their values. -/
theorem le_iff_value (hx : x.isNaN = false) (hy : y.isNaN = false) : x ≤ y ↔ value x ≤ value y := by
  rw [le_iff hx hy, value_le_value]

theorem lt_iff_value (hx : x.isNaN = false) (hy : y.isNaN = false) : x < y ↔ value x < value y := by
  rw [lt_iff hx hy, ← not_le, ← not_le, value_le_value]

theorem lt_iff_not_le (hx : x.isNaN = false) (hy : y.isNaN = false) : x < y ↔ ¬y ≤ x := by
  rw [lt_iff_value hx hy, le_iff_value hy hx, not_le]

theorem le_of_not_le (hx : x.isNaN = false) (hy : y.isNaN = false) (h : ¬x ≤ y) : y ≤ x := by
  rw [le_iff_value hx hy, not_le] at h
  exact (le_iff_value hy hx).2 h.le

theorem value_zero : value 0.0 = 0 := by
  show scale (magnitudeBits 0.0) = 0
  rw [show magnitudeBits 0.0 = 0 from by decide, scale_zero]

theorem value_one : value 1.0 = 1 := by
  show scale (magnitudeBits 1.0) = 1
  rw [magnitudeBits_one, scale_oneBits]

theorem value_nonneg : 0 ≤ value x ↔ 0 ≤ signedNumber x := by
  rw [← value_zero, value_le_value]
  rfl

theorem value_eq_zero : value x = 0 ↔ magnitudeBits x = 0 := by
  rw [← abs_eq_zero, abs_value]
  unfold absValue
  constructor
  · intro h
    by_contra hne
    exact (scale_pos.2 (Nat.pos_of_ne_zero hne)).ne' h
  · intro h
    rw [h, scale_zero]

theorem sign_of_value_pos (h : 0 < value x) : sign x = .positive := by
  have hnonneg : 0 ≤ absValue x := scale_nonneg _
  unfold value at h
  cases hs : sign x with
  | positive => rfl
  | negative =>
    rw [hs] at h
    simp only at h
    linarith

/-- Between zero and a finite double all doubles are finite. -/
theorem isFinite_of_value_le (hx : 0 ≤ value x) (hxy : value x ≤ value y)
    (hy : y.isFinite = true) : x.isFinite = true := by
  have hle := value_le_value.1 hxy
  have hmag := signedNumber_of_nonneg (value_nonneg.1 hx)
  have hmag' := signedNumber_of_nonneg ((value_nonneg.1 hx).trans hle)
  rw [isFinite_iff] at hy ⊢
  omega

/-! ## Monotone rounding -/

theorem Rounds.isNaN (h : Rounds x q) : x.isNaN = false := by
  obtain ⟨s, hround, -⟩ := h
  exact hround.isNaN

/-- A number is its own rounding. -/
theorem rounds_value (hx : x.isNaN = false) : Rounds x (value x) := by
  rw [isNaN_eq_false_iff] at hx
  refine ⟨sign x, ⟨magnitudeBits x, ?_, by omega, rfl⟩, ?_⟩
  · rw [abs_value]
    exact isNearest_scale _
  · unfold value
    have hnonneg : 0 ≤ absValue x := scale_nonneg _
    cases sign x
    · exact ⟨fun h => absurd hnonneg (not_le.2 (neg_pos.1 h)), fun _ => rfl⟩
    · exact ⟨fun _ => rfl, fun h => absurd hnonneg (not_le.2 h)⟩

theorem Rounds.signedNumber_zero (h : Rounds x 0) : signedNumber x = 0 := by
  obtain ⟨s, ⟨k, hk, hmag, -⟩, -⟩ := h
  rw [abs_zero, ← scale_zero] at hk
  obtain rfl := hk.unique (isNearest_scale 0)
  rw [Nat.zero_min] at hmag
  rw [signedNumber_eq, hmag]
  split_ifs <;> rfl

theorem Rounds.signedNumber_pos (h : Rounds x q) (hq : 0 < q) :
    signedNumber x = magnitudeBits x := by
  obtain ⟨s, ⟨k, -, -, hs⟩, hpos, -⟩ := h
  unfold signedNumber
  rw [hs, hpos hq]
  rfl

theorem Rounds.signedNumber_neg (h : Rounds x q) (hq : q < 0) :
    signedNumber x = -magnitudeBits x := by
  obtain ⟨s, ⟨k, -, -, hs⟩, -, hneg⟩ := h
  unfold signedNumber
  rw [hs, hneg hq]
  rfl

theorem Rounds.magnitudeBits_le (hx : Rounds x p) (hy : Rounds y q) (h : |p| ≤ |q|) :
    magnitudeBits x ≤ magnitudeBits y := by
  obtain ⟨s, ⟨k, hk, hx, -⟩, -⟩ := hx
  obtain ⟨t, ⟨j, hj, hy, -⟩, -⟩ := hy
  have := hk.le hj h
  omega

/-- Of two rationals, the larger one is not rounded to a smaller double. -/
theorem Rounds.le (hx : Rounds x p) (hy : Rounds y q) (h : p ≤ q) : value x ≤ value y := by
  rw [value_le_value]
  rcases lt_trichotomy p 0 with hp | rfl | hp
  · rw [hx.signedNumber_neg hp]
    rcases lt_trichotomy q 0 with hq | rfl | hq
    · rw [hy.signedNumber_neg hq]
      have := hy.magnitudeBits_le hx (by rw [abs_of_neg hp, abs_of_neg hq]; linarith)
      omega
    · rw [hy.signedNumber_zero]
      omega
    · rw [hy.signedNumber_pos hq]
      omega
  · rw [hx.signedNumber_zero]
    rcases h.eq_or_lt with rfl | hq
    · rw [hy.signedNumber_zero]
    · rw [hy.signedNumber_pos hq]
      omega
  · have hq := hp.trans_le h
    rw [hx.signedNumber_pos hp, hy.signedNumber_pos hq]
    have := hx.magnitudeBits_le hy (by rwa [abs_of_pos hp, abs_of_pos hq])
    omega

/-- Rounding does not pass a double. -/
theorem Rounds.value_le (hx : Rounds x p) (hy : y.isNaN = false) (h : p ≤ value y) :
    value x ≤ value y :=
  hx.le (rounds_value hy) h

theorem Rounds.le_value (hy : Rounds y q) (hx : x.isNaN = false) (h : value x ≤ q) :
    value x ≤ value y :=
  (rounds_value hx).le hy h

theorem Rounds.value_nonneg (hx : Rounds x q) (h : 0 ≤ q) : 0 ≤ value x := by
  have := hx.le_value (x := 0.0) rfl (by rwa [value_zero])
  rwa [value_zero] at this

/-! ## Natural numbers -/

section Natural

variable {n : ℕ} (hn : n < 2 ^ 53)
include hn

/-- A natural number below 2 ^ 53 is a double. -/
theorem value_ofNat : value (ofNat n) = n := by
  unfold value
  rw [sign_ofNat]
  exact (magnitudeBits_ofNat hn).1

theorem isFinite_ofNat : (ofNat n).isFinite = true :=
  isFinite_iff.2 (magnitudeBits_ofNat hn).2

end Natural

theorem value_ofNat_nonneg (n : ℕ) : 0 ≤ value (ofNat n) := by
  unfold value
  rw [sign_ofNat]
  exact scale_nonneg _

theorem rounds_ofNat (n : ℕ) : Rounds (ofNat n) n := by
  have hcast : (0 : ℚ) ≤ n := n.cast_nonneg
  refine ⟨.positive, ?_, fun _ => rfl, fun hneg => absurd hcast (not_le.2 hneg)⟩
  rw [abs_of_nonneg hcast]
  exact isRounded_ofNat n

/-- Larger numbers have no smaller doubles, however large they are. -/
theorem value_ofNat_mono {m n : ℕ} (h : m ≤ n) : value (ofNat m) ≤ value (ofNat n) :=
  (rounds_ofNat m).le (rounds_ofNat n) (by exact_mod_cast h)

theorem value_ofNat_pos {n : ℕ} (h : 0 < n) : 0 < value (ofNat n) := by
  have hone : value (ofNat 1) = (1 : ℕ) := value_ofNat (by norm_num)
  have hle := value_ofNat_mono (Nat.succ_le_of_lt h)
  rw [hone] at hle
  exact lt_of_lt_of_le (by norm_num) hle

theorem totalLe_ofNat {m n : ℕ} (h : m ≤ n) : totalLe (ofNat m) (ofNat n) = true := by
  have hnonneg : ∀ k, isNegative (ofNat k) = false := by
    intro k
    have hsign := sign_ofNat k
    unfold sign at hsign
    split_ifs at hsign with hneg
    exact Bool.eq_false_iff.2 hneg
  have hle := value_le_value.1 (value_ofNat_mono h)
  rw [signedNumber_eq, signedNumber_eq, hnonneg, hnonneg] at hle
  unfold totalLe totalKey
  rw [hnonneg, hnonneg]
  exact decide_eq_true hle

/-- Only zero is converted to zero. -/
theorem ofNat_beq_zero {n : ℕ} (h : 0 < n) : (ofNat n == 0.0) = false := by
  rw [← Bool.not_eq_true, beq_iff (isNaN_ofNat n) rfl, ← value_eq_value, value_zero]
  exact (value_ofNat_pos h).ne'

/-- Truncation of a double that is not negative is its whole part, up to the largest word. -/
theorem toNat_toUInt64 (hx : x.isFinite = true) (h0 : 0 ≤ value x) :
    x.toUInt64.toNat = min ⌊value x⌋₊ (2 ^ 64 - 1) := by
  show (UInt64.ofNatClamp (x.toModel.unpack.toInt 0 (UInt64.size - 1)).toNat).toNat = _
  have hwhole : (x.toModel.unpack.toInt 0 (UInt64.size - 1)).toNat = ⌊value x⌋₊ := by
    rcases unpack_of_isFinite hx with ⟨hk, hu⟩ | ⟨e, n, hpos, hn, h, hk, hu⟩
    · rw [hu, value_eq_zero.2 hk, Nat.floor_zero]
      rfl
    · have hne : value x ≠ 0 := by
        rw [Ne, value_eq_zero, hk]
        exact (place_pos hpos).ne'
      have hsign := sign_of_value_pos (h0.lt_of_ne' hne)
      unfold value absValue
      rw [hu, hk, hsign, scale_place hn.le h]
      show (roundToInt .positive n (e - 1074)).toNat = _
      rw [roundToInt_eq]
      rfl
  rw [hwhole, toNat_ofNatClamp]

end FigureData.Binary64
