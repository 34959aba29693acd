/-
  Rounding a rational to a double.

  The arithmetic computes a significand together with two residual bits, and a
  rational lies in the interval that the three of them name (`LocatedIn`).  Shifting
  right keeps that relation, and the significand that rounding picks from it is the
  nearest one.

  Proved:
  * `LocatedIn.shiftRight`: a shift by `n` bits divides the rational by 2 ^ n.
  * `LocatedIn.isNearest`: a significand in place rounds to the nearest number.
  * `isRounded_roundWithAccuracy`: what the arithmetic returns for a rational, with
    the significand it starts from precise enough, is the rational rounded.
  * `isRounded_round`: the same from any significand and exponent.
-/
import FigureData.Proofs.Binary64.Bits

namespace FigureData.Binary64

open Float.Model
open Float.Model.UnpackedFloat

/-! ## Residual bits -/

/-- The rational `x` lies where the significand `m` and its residual bits say. -/
inductive Located (x : ℚ) (m : ℕ) : Bool → Bool → Prop
  | exact (h : x = m) : Located x m false false
  | low (h : m < x) (h' : x < m + 1 / 2) : Located x m false true
  | half (h : x = m + 1 / 2) : Located x m true false
  | high (h : m + 1 / 2 < x) (h' : x < m + 1) : Located x m true true

def LocatedIn (x : ℚ) (em : ExtendedMantissa) : Prop :=
  Located x em.mantissa em.roundBit em.stickyBit

theorem LocatedIn.shiftRightOne {x : ℚ} {em : ExtendedMantissa} (h : LocatedIn x em) :
    LocatedIn (x / 2) em.shiftRightOne := by
  obtain ⟨m, r, s⟩ := em
  have hdiv : (m : ℚ) = 2 * (m / 2 : ℕ) + (m % 2 : ℕ) := by
    exact_mod_cast (Nat.div_add_mod m 2).symm
  unfold LocatedIn ExtendedMantissa.shiftRightOne at *
  simp only at h ⊢
  rcases Nat.mod_two_eq_zero_or_one m with hpar | hpar
  -- An even significand shifts a zero into the round bit, an odd one shifts a one.
  · rw [hpar, Nat.cast_zero, add_zero] at hdiv
    rw [hpar]
    cases h with
    | exact h => exact .exact (by linarith)
    | low h h' => exact .low (by linarith) (by linarith)
    | half h => exact .low (by linarith) (by linarith)
    | high h h' => exact .low (by linarith) (by linarith)
  · rw [hpar, Nat.cast_one] at hdiv
    rw [hpar]
    cases h with
    | exact h => exact .half (by linarith)
    | low h h' => exact .high (by linarith) (by linarith)
    | half h => exact .high (by linarith) (by linarith)
    | high h h' => exact .high (by linarith) (by linarith)

theorem LocatedIn.shiftRight {x : ℚ} {em : ExtendedMantissa} (h : LocatedIn x em) (n : ℕ) :
    LocatedIn (x / 2 ^ n) (em >>> n) := by
  show LocatedIn _ (n.repeat ExtendedMantissa.shiftRightOne em)
  induction n with
  | zero => rwa [pow_zero, div_one]
  | succ n ih =>
    rw [pow_succ, ← div_div]
    exact ih.shiftRightOne

theorem mantissa_shiftRight (em : ExtendedMantissa) (n : ℕ) :
    (em >>> n).mantissa = em.mantissa / 2 ^ n := by
  show (n.repeat ExtendedMantissa.shiftRightOne em).mantissa = _
  induction n with
  | zero => rw [pow_zero, Nat.div_one]; rfl
  | succ n ih =>
    rw [pow_succ, ← Nat.div_div_eq_div_mul, ← ih]
    rfl

/-! ## The significand that rounding picks -/

theorem roundedMantissa_bounds (em : ExtendedMantissa) :
    em.mantissa ≤ em.roundedMantissa ∧ em.roundedMantissa ≤ em.mantissa + 1 := by
  obtain ⟨m, r, s⟩ := em
  cases r <;> cases s <;>
    simp only [ExtendedMantissa.roundedMantissa, ExtendedMantissa.accuracy,
      Accuracy.roundToNearestEven] <;> omega

/-- A significand in place rounds to the nearest number. -/
theorem LocatedIn.isNearest {x : ℚ} {em : ExtendedMantissa} {s : ℕ}
    (hloc : LocatedIn (x / 2 ^ (s - 1074 : ℤ)) em) (hn : em.mantissa < 2 ^ 53)
    (h : 2 ^ 52 ≤ em.mantissa ∨ s = 0) : IsNearest x (place s em.roundedMantissa) := by
  obtain ⟨m, r, t⟩ := em
  have hpow : (0 : ℚ) < 2 ^ (s - 1074 : ℤ) := by positivity
  unfold LocatedIn at hloc
  simp only at hloc hn h
  cases hloc with
  | exact hx =>
    rw [div_eq_iff hpow.ne'] at hx
    exact isNearest_of_lt_half (n := m) hn h hx.ge (by rw [hx]; linarith)
  | low hx hx' =>
    rw [lt_div_iff₀ hpow] at hx
    rw [div_lt_iff₀ hpow] at hx'
    exact isNearest_of_lt_half hn h hx.le hx'
  | half hx =>
    rw [div_eq_iff hpow.ne'] at hx
    exact isNearest_of_half hn h hx
  | high hx hx' =>
    rw [lt_div_iff₀ hpow] at hx
    rw [div_lt_iff₀ hpow] at hx'
    exact isNearest_of_half_lt hn h hx hx'

/-! ## Exponents -/

theorem targetExponent_eq (m : ℕ) (e : ℤ) :
    Format.binary64.targetExponent (totalExponent m e) = max (m.log2 + e - 52) (-1074) := by
  show max ((m.log2 : ℤ) + 1 + e - (53 : ℕ)) (-1074) = _
  congr 1
  push_cast
  ring

/-- Shifted to its exponent, a significand has at most 53 bits, and exactly 53 unless the
exponent is the smallest one. -/
theorem shifted_bounds {m : ℕ} {e t : ℤ} (ht : t = max (m.log2 + e - 52) (-1074)) (he : e ≤ t) :
    m / 2 ^ (t - e).toNat < 2 ^ 53 ∧ (2 ^ 52 ≤ m / 2 ^ (t - e).toNat ∨ t = -1074) := by
  have hlt : m < 2 ^ (m.log2 + 1) := Nat.lt_log2_self
  obtain ⟨n, hn⟩ : ∃ n : ℕ, t - e = n := ⟨(t - e).toNat, by omega⟩
  rw [hn, Int.toNat_natCast]
  refine ⟨?_, ?_⟩
  · rw [Nat.div_lt_iff_lt_mul (by positivity), ← pow_add]
    exact hlt.trans_le (Nat.pow_le_pow_right (by norm_num) (by omega))
  · by_cases hmin : t = -1074
    · exact .inr hmin
    left
    have hlog : m.log2 = n + 52 := by omega
    have hm : m ≠ 0 := by
      rintro rfl
      simp at hlog
    rw [Nat.le_div_iff_mul_le (by positivity), ← pow_add, ← Nat.le_log2 hm]
    omega

/-! ## Rounding -/

/-- The double `x` is the rational `q`, rounded, with sign `s`. -/
def IsRounded (x : Float) (s : Sign) (q : ℚ) : Prop :=
  ∃ k, IsNearest q k ∧ magnitudeBits x = min k infinityBits ∧ sign x = s

theorem mantissa_ofMantissaAndAccuracy (m : ℕ) (acc : Accuracy) :
    (ExtendedMantissa.ofMantissaAndAccuracy m acc).mantissa = m := by
  cases acc with
  | exact => rfl
  | inexact o => cases o <;> rfl

theorem shift_eq (m : ℕ) (i : ℤ) (acc : Accuracy) {t : ℤ} (ht : t = max (m.log2 + i - 52) (-1074))
    (hi : i ≤ t) : shiftToTargetExponent Format.binary64 m i acc =
      (ExtendedMantissa.ofMantissaAndAccuracy m acc >>> (t - i).toNat, t) := by
  unfold shiftToTargetExponent shiftToExponent
  rw [targetExponent_eq, ← ht]
  simp only [Prod.mk.injEq, true_and]
  omega

/-- A significand of at most 53 bits stays where it is. -/
theorem shift_small {n e : ℕ} (hn : n < 2 ^ 53) :
    shiftToTargetExponent Format.binary64 n (e - 1074) .exact =
      (.ofMantissaAndAccuracy n .exact, (e - 1074 : ℤ)) := by
  have hlog : n.log2 ≤ 52 := by
    rcases Nat.eq_zero_or_pos n with rfl | hpos
    · simp
    · have := (Nat.log2_lt hpos.ne').2 hn
      omega
  unfold shiftToTargetExponent shiftToExponent
  rw [targetExponent_eq]
  have hzero : (max ((n.log2 : ℤ) + (e - 1074) - 52) (-1074) - (e - 1074)).toNat = 0 := by omega
  simp only [hzero, Nat.cast_zero, add_zero]
  rfl

/-- A full significand, one bit too long, moves to the next exponent. -/
theorem shift_full (e : ℕ) :
    shiftToTargetExponent Format.binary64 (2 ^ 53) (e - 1074) .exact =
      (.ofMantissaAndAccuracy (2 ^ 52) .exact, ((e + 1 : ℕ) - 1074 : ℤ)) := by
  unfold shiftToTargetExponent shiftToExponent
  rw [targetExponent_eq, Nat.log2_two_pow]
  have hone : (max (((53 : ℕ) : ℤ) + (e - 1074) - 52) (-1074) - (e - 1074)).toNat = 1 := by omega
  simp only [hone, Prod.mk.injEq]
  refine ⟨rfl, ?_⟩
  push_cast
  ring

/-- What the arithmetic returns for a rational, with the significand it starts from precise
enough, is the rational rounded. -/
theorem isRounded_roundWithAccuracy {q : ℚ} {m : ℕ} {i : ℤ} {acc : Accuracy} (s : Sign)
    (hloc : LocatedIn (q / 2 ^ i) (.ofMantissaAndAccuracy m acc))
    (hi : i ≤ max (m.log2 + i - 52) (-1074)) :
    IsRounded (packed (roundWithAccuracy Format.binary64 s m i acc)) s q := by
  obtain ⟨t, ht⟩ : ∃ t, t = max ((m.log2 : ℤ) + i - 52) (-1074) := ⟨_, rfl⟩
  rw [← ht] at hi
  have hbound := shifted_bounds ht hi
  have hfirst := shift_eq m i acc ht hi
  have hshifted := hloc.shiftRight (t - i).toNat
  rw [← mantissa_ofMantissaAndAccuracy m acc, ← mantissa_shiftRight] at hbound
  have hscale : q / 2 ^ i / 2 ^ (t - i).toNat = q / 2 ^ t := by
    rw [← zpow_natCast, Int.toNat_of_nonneg (by omega), div_div, ← zpow_add₀ (by norm_num)]
    congr 2
    ring
  rw [hscale] at hshifted
  obtain ⟨e, rfl⟩ : ∃ e : ℕ, t = e - 1074 := ⟨(t + 1074).toNat, by omega⟩
  have hnear := hshifted.isNearest hbound.1 (by omega)
  refine ⟨_, hnear, ?_⟩
  unfold roundWithAccuracy
  rw [hfirst]
  generalize (ExtendedMantissa.ofMantissaAndAccuracy m acc >>> (_ - i).toNat) = em at *
  have hround := roundedMantissa_bounds em
  simp only
  generalize em.roundedMantissa = n at *
  by_cases hfull : n = 2 ^ 53
  · subst hfull
    have hplace : place e (2 ^ 53) = place (e + 1) (2 ^ 52) := by unfold place; omega
    rw [shift_full, hplace]
    simp only [mantissa_ofMantissaAndAccuracy]
    rw [dif_neg (by norm_num)]
    exact packed_finite s (by norm_num) (.inl le_rfl) _
  · rw [shift_small (by omega)]
    simp only [mantissa_ofMantissaAndAccuracy]
    by_cases hzero : n = 0
    · obtain rfl : e = 0 := by omega
      subst hzero
      rw [dif_pos rfl]
      exact packed_zero s
    · rw [dif_neg hzero]
      exact packed_finite s (by omega) (by omega) _

theorem log2_mul_pow {m : ℕ} (hm : 0 < m) (n : ℕ) : (m * 2 ^ n).log2 = m.log2 + n := by
  induction n with
  | zero => rw [pow_zero, mul_one, add_zero]
  | succ n ih =>
    rw [pow_succ', mul_left_comm, Nat.log2_two_mul (by positivity), ih]
    rfl

/-- A significand without residual bits. -/
theorem locatedIn_exact {x : ℚ} {m : ℕ} (hx : x = m) :
    LocatedIn x (.ofMantissaAndAccuracy m .exact) :=
  .exact hx

/-- Rounding from any significand and exponent. -/
theorem isRounded_round (s : Sign) {m : ℕ} (hm : 0 < m) (i : ℤ) :
    IsRounded (packed (round Format.binary64 s m i)) s (m * 2 ^ i) := by
  unfold UnpackedFloat.round decreaseExponent
  rw [targetExponent_eq]
  obtain ⟨n, hn⟩ : ∃ n, n = (i - max ((m.log2 : ℤ) + i - 52) (-1074)).toNat := ⟨_, rfl⟩
  simp only [← hn, Nat.shiftLeft_eq]
  refine isRounded_roundWithAccuracy s (locatedIn_exact ?_) ?_
  · rw [div_eq_iff (by positivity)]
    push_cast
    rw [mul_assoc, ← zpow_natCast, ← zpow_add₀ (by norm_num)]
    congr 2
    ring
  · rw [log2_mul_pow hm]
    push_cast
    omega

end FigureData.Binary64
