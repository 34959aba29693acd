/-
  Quotients, products and conversions of doubles are correctly rounded.

  Proved:
  * `isRounded_div`, `isRounded_mul`: quotient and product of finite doubles are the
    rational quotient and product of their values, rounded.
  * `isRounded_ofNat`: a natural number is converted with one rounding; below 2 ^ 53 it
    is kept exactly (`magnitudeBits_ofNat`).
  * `isNaN_mul`, `isNaN_div`: products and quotients that are numbers.
  * `powerOfTen_bounds`: a power of ten up to 10 ^ 308 is a finite double not below one.
  * `div_le_one_iff`: for finite `c` and `b`, not negative and `b` not zero, the rounded
    quotient `c / b` is at most one exactly when `c ≤ b`.
-/
import FigureData.Json.Token
import FigureData.Proofs.Binary64.Rounding
import Mathlib.Data.Nat.Cast.Order.Field
import Mathlib.Tactic.FieldSimp

namespace FigureData.Binary64

open Float.Model
open Float.Model.UnpackedFloat

/-! ## Quotients -/

/-- A quotient lies above its whole part by the remainder. -/
theorem div_eq_add_remainder (a : ℕ) {b : ℕ} (hb : 0 < b) :
    (a / b : ℚ) = (a / b : ℕ) + (a % b : ℕ) / b := by
  have hb' : (b : ℚ) ≠ 0 := by exact_mod_cast hb.ne'
  have hdiv : (a : ℚ) = b * (a / b : ℕ) + (a % b : ℕ) := by
    exact_mod_cast (Nat.div_add_mod a b).symm
  rw [div_eq_iff hb', add_mul, div_mul_cancel₀ _ hb']
  linarith

theorem locatedIn_fraction (m : ℕ) {r b : ℕ} (hr : r < b) :
    LocatedIn (m + r / b : ℚ) (.ofMantissaAndAccuracy m (accuracyOfFraction r b)) := by
  have hb : (0 : ℚ) < b := by exact_mod_cast Nat.zero_lt_of_lt hr
  unfold accuracyOfFraction
  split
  next hzero =>
    subst hzero
    exact locatedIn_exact (by simp)
  next hpos =>
    have hlow : (0 : ℚ) < r / b := div_pos (by exact_mod_cast Nat.pos_of_ne_zero hpos) hb
    have hhigh : (r / b : ℚ) < 1 := by
      rw [div_lt_one hb]
      exact_mod_cast hr
    rcases lt_trichotomy (2 * r) b with h | h | h
    · have hhalf : (r / b : ℚ) < 1 / 2 := by
        have : (2 * r : ℚ) < b := by exact_mod_cast h
        rw [div_lt_iff₀ hb]
        linarith
      rw [compare_lt_iff_lt.2 h]
      exact .low (lt_add_of_pos_right _ hlow) (add_lt_add_right hhalf _)
    · have hhalf : (r / b : ℚ) = 1 / 2 := by
        have : (2 * r : ℚ) = b := by exact_mod_cast h
        rw [div_eq_iff hb.ne']
        linarith
      rw [compare_eq_iff_eq.2 h, hhalf]
      exact .half rfl
    · have hhalf : (1 / 2 : ℚ) < r / b := by
        have : (b : ℚ) < 2 * r := by exact_mod_cast h
        rw [lt_div_iff₀ hb]
        linarith
      rw [compare_gt_iff_gt.2 h]
      exact .high (add_lt_add_right hhalf _) (add_lt_add_right hhigh _)

/-- The quotient of two significands, computed with enough bits. -/
theorem isRounded_divCore (s : Sign) {m n : ℕ} (hm : 0 < m) (hn : 0 < n) (i j : ℤ) :
    let (quotient, exponent, acc) := divCore Format.binary64 m i n j
    IsRounded (packed (roundWithAccuracy Format.binary64 s quotient exponent acc)) s
      (m * 2 ^ i / (n * 2 ^ j)) := by
  unfold divCore
  have htarget : Format.binary64.targetExponent (totalExponent m i - totalExponent n j) =
      max ((m.log2 : ℤ) + i - (n.log2 + j) - 53) (-1074) := by
    show max (((m.log2 : ℤ) + 1 + i) - ((n.log2 : ℤ) + 1 + j) - (53 : ℕ)) (-1074) = _
    congr 1
    push_cast
    ring
  rw [htarget]
  obtain ⟨t, ht⟩ : ∃ t, t = min (i - j) (max ((m.log2 : ℤ) + i - (n.log2 + j) - 53) (-1074)) :=
    ⟨_, rfl⟩
  obtain ⟨k, hk⟩ : ∃ k : ℕ, i - j - t = k := ⟨(i - j - t).toNat, by omega⟩
  simp only [← ht, hk, Int.toNat_natCast, Nat.shiftLeft_eq]
  refine isRounded_roundWithAccuracy s ?_ ?_
  · have hquot : (m * 2 ^ i / (n * 2 ^ j) / 2 ^ t : ℚ) = (m * 2 ^ k : ℕ) / n := by
      have hn' : (n : ℚ) ≠ 0 := by exact_mod_cast hn.ne'
      have hi : i = k + j + t := by omega
      rw [hi, zpow_add₀ (by norm_num), zpow_add₀ (by norm_num), zpow_natCast]
      push_cast
      field_simp
    rw [hquot, div_eq_add_remainder _ hn]
    exact locatedIn_fraction _ (Nat.mod_lt _ hn)
  · by_cases hlow : t ≤ -1074
    · exact hlow.trans (le_max_right _ _)
    -- The shift leaves at least 53 bits in the whole part.
    have hbits : n.log2 + 53 ≤ m.log2 + k := by omega
    have hbig : 2 ^ 52 ≤ m * 2 ^ k / n := by
      rw [Nat.le_div_iff_mul_le hn]
      have hn2 : n < 2 ^ (n.log2 + 1) := Nat.lt_log2_self
      have hm2 : 2 ^ m.log2 ≤ m := Nat.log2_self_le hm.ne'
      calc 2 ^ 52 * n ≤ 2 ^ 52 * 2 ^ (n.log2 + 1) := Nat.mul_le_mul_left _ hn2.le
        _ = 2 ^ (n.log2 + 53) := by rw [← pow_add]; congr 1; omega
        _ ≤ 2 ^ (m.log2 + k) := Nat.pow_le_pow_right (by norm_num) hbits
        _ = 2 ^ m.log2 * 2 ^ k := pow_add _ _ _
        _ ≤ m * 2 ^ k := Nat.mul_le_mul_right _ hm2
    have hlog : 52 ≤ (m * 2 ^ k / n).log2 := by
      rw [Nat.le_log2 (by omega)]
      exact hbig
    omega

/-- How a finite double unpacks. -/
theorem unpack_of_isFinite {x : Float} (hx : x.isFinite = true) :
    magnitudeBits x = 0 ∧ x.toModel.unpack = .zero (sign x) ∨
      ∃ (e n : ℕ) (hpos : 0 < n), n < 2 ^ 53 ∧ (2 ^ 52 ≤ n ∨ e = 0) ∧
        magnitudeBits x = place e n ∧ x.toModel.unpack = .finite (sign x) n (e - 1074) hpos := by
  rw [isFinite_iff] at hx
  have hu := unpacks x
  generalize magnitudeBits x = k, x.toModel.unpack = u at *
  cases hu with
  | zero => exact .inl ⟨rfl, rfl⟩
  | finite hn h hpos hmax => exact .inr ⟨_, _, hpos, hn, h, rfl, rfl⟩
  | infinity => omega
  | notANumber hk => omega

/-- How an infinite double unpacks. -/
theorem unpack_of_infinite {x : Float} (hx : magnitudeBits x = infinityBits) :
    x.toModel.unpack = .infinity (sign x) := by
  have hu := unpacks x
  generalize magnitudeBits x = k, x.toModel.unpack = u at *
  cases hu with
  | zero => exact absurd hx (by decide)
  | finite _ _ _ hmax => omega
  | infinity => rfl
  | notANumber hlt => omega

/-- The value of a double without its sign. -/
def absValue (x : Float) : ℚ := scale (magnitudeBits x)

theorem isRounded_zero (s : Sign) : IsRounded (packed (.zero s)) s 0 := by
  refine ⟨0, ?_, ?_⟩
  · have := isNearest_scale 0
    rwa [scale_zero] at this
  · rw [Nat.zero_min]
    exact packed_zero s

/-- The quotient of finite doubles is their rational quotient, rounded. -/
theorem isRounded_div {x y : Float} (hx : x.isFinite = true) (hy : y.isFinite = true)
    (hzero : 0 < magnitudeBits y) :
    IsRounded (x / y) (sign x / sign y) (absValue x / absValue y) := by
  show IsRounded (packed (UnpackedFloat.div Format.binary64 x.toModel.unpack y.toModel.unpack)) _ _
  unfold absValue
  rcases unpack_of_isFinite hy with ⟨hk, -⟩ | ⟨e', n', hpos', hn', h', hk', hu'⟩
  · omega
  rcases unpack_of_isFinite hx with ⟨hk, hu⟩ | ⟨e, n, hpos, hn, h, hk, hu⟩
  · rw [hk, hu, hu', scale_zero, zero_div]
    exact isRounded_zero _
  · rw [hk, hk', hu, hu', scale_place hn.le h, scale_place hn'.le h']
    exact isRounded_divCore _ hpos hpos' _ _

/-! ## Products -/

/-- The product of finite doubles is their rational product, rounded. -/
theorem isRounded_mul {x y : Float} (hx : x.isFinite = true) (hy : y.isFinite = true) :
    IsRounded (x * y) (sign x * sign y) (absValue x * absValue y) := by
  show IsRounded (packed (UnpackedFloat.mul Format.binary64 x.toModel.unpack y.toModel.unpack)) _ _
  unfold absValue
  rcases unpack_of_isFinite hx with ⟨hk, hu⟩ | ⟨e, n, hpos, hn, h, hk, hu⟩
  · rcases unpack_of_isFinite hy with ⟨-, hu'⟩ | ⟨e', n', hpos', hn', h', hk', hu'⟩
    · rw [hk, hu, hu', scale_zero, zero_mul]
      exact isRounded_zero _
    · rw [hk, hu, hu', scale_zero, zero_mul]
      exact isRounded_zero _
  · rcases unpack_of_isFinite hy with ⟨hk', hu'⟩ | ⟨e', n', hpos', hn', h', hk', hu'⟩
    · rw [hk', hu, hu', scale_zero, mul_zero]
      exact isRounded_zero _
    · rw [hk, hk', hu, hu', scale_place hn.le h, scale_place hn'.le h']
      refine isRounded_roundWithAccuracy _ (locatedIn_exact ?_) ?_
      · rw [div_eq_iff (by positivity), zpow_add₀ (by norm_num)]
        push_cast
        ring
      -- One of the two significands has 53 bits, or both exponents are the smallest one.
      · by_cases hlow : (e : ℤ) - 1074 + (e' - 1074) ≤ -1074
        · exact hlow.trans (le_max_right _ _)
        have hbig : 2 ^ 52 ≤ n * n' := by
          rcases h with h | h
          · exact h.trans (Nat.le_mul_of_pos_right _ hpos')
          · rcases h' with h' | h'
            · exact h'.trans (Nat.le_mul_of_pos_left _ hpos)
            · omega
        have hlog : 52 ≤ (n * n').log2 := by
          rw [Nat.le_log2 (by omega)]
          exact hbig
        omega

/-! ## Natural numbers and powers of ten -/

/-- A natural number below 2 ^ 53 is on the scale. -/
theorem exists_scale_eq_natCast {n : ℕ} (hn : n < 2 ^ 53) :
    ∃ k, k < infinityBits ∧ scale k = n := by
  rcases Nat.eq_zero_or_pos n with rfl | hpos
  · exact ⟨0, by norm_num [infinityBits], by simp⟩
  have hlog : n.log2 < 53 := (Nat.log2_lt hpos.ne').2 hn
  have hlow : 2 ^ n.log2 ≤ n := Nat.log2_self_le hpos.ne'
  have hhigh : n < 2 ^ (n.log2 + 1) := Nat.lt_log2_self
  generalize n.log2 = l at *
  have hfull : 2 ^ 52 ≤ n * 2 ^ (52 - l) := by
    calc 2 ^ 52 = 2 ^ l * 2 ^ (52 - l) := by rw [← pow_add]; congr 1; omega
      _ ≤ n * 2 ^ (52 - l) := Nat.mul_le_mul_right _ hlow
  have hbound : n * 2 ^ (52 - l) < 2 ^ 53 := by
    calc n * 2 ^ (52 - l) < 2 ^ (l + 1) * 2 ^ (52 - l) :=
          Nat.mul_lt_mul_of_pos_right hhigh (by positivity)
      _ = 2 ^ 53 := by rw [← pow_add]; congr 1; omega
  refine ⟨place (l + 1022) (n * 2 ^ (52 - l)), ?_, ?_⟩
  · unfold place infinityBits
    omega
  · have hexp : ((l + 1022 : ℕ) - 1074 : ℤ) = -((52 - l : ℕ) : ℤ) := by omega
    rw [scale_place hbound.le (.inl hfull), hexp, zpow_neg, zpow_natCast]
    push_cast
    field_simp

/-- The conversion that is used where the fast one is not exact. -/
theorem isRounded_modelOfScientific {m : ℕ} (hm : 0 < m) {e : ℕ} (he : e ≤ 2048) :
    IsRounded (.ofModel (.ofScientific m e)) .positive (m * 10 ^ e) := by
  show IsRounded (packed (UnpackedFloat.ofScientific Format.binary64 m e)) _ _
  unfold UnpackedFloat.ofScientific
  have hlarge : ¬ (e : ℤ) > 2 ^ Format.binary64.exponentBits := by
    show ¬ (2 : ℤ) ^ 11 < e
    omega
  have hsmall : ¬ (e : ℤ) < -((2 ^ Format.binary64.exponentBits : ℤ) + m.log2) := by
    show ¬ (e : ℤ) < -((2 : ℤ) ^ 11 + m.log2)
    omega
  rw [dif_neg hm.ne', if_neg hlarge, if_neg hsmall, if_pos (by omega)]
  have hbits : Format.binary64.mantissaBits = 53 := rfl
  have hexp : (-(53 : ℕ) + 0 : ℤ) = -53 := by norm_num
  have hpow : 0 < m * 10 ^ e := by positivity
  have hmant : m <<< 53 * 10 ^ (e : ℤ).toNat = m * 10 ^ e * 2 ^ 53 := by
    rw [Int.toNat_natCast, Nat.shiftLeft_eq]
    ring
  simp only [hbits]
  refine isRounded_roundWithAccuracy _ (locatedIn_exact ?_) ?_
  · rw [hmant, hexp, zpow_neg, div_inv_eq_mul]
    push_cast
    rfl
  · rw [hmant, hexp, log2_mul_pow hpow]
    push_cast
    omega

theorem isRounded_toFloat (n : UInt64) : IsRounded n.toFloat .positive n.toNat := by
  show IsRounded (packed (UnpackedFloat.normalize Format.binary64 n.toNat 0 .positive)) _ _
  unfold UnpackedFloat.normalize
  rcases Nat.eq_zero_or_pos n.toNat with hzero | hpos
  · rw [hzero]
    exact isRounded_zero _
  · rw [compare_gt_iff_gt.2 (by omega : (0 : ℤ) < n.toNat)]
    have := isRounded_round .positive hpos 0
    rwa [zpow_zero, mul_one] at this

/-- A rounded value that is on the scale is exact. -/
theorem IsRounded.eq_of_scale {x : Float} {s : Sign} {k : ℕ} (h : IsRounded x s (scale k))
    (hk : k < infinityBits) : magnitudeBits x = k ∧ sign x = s := by
  obtain ⟨j, hj, hmag, hs⟩ := h
  obtain rfl := hj.unique (isNearest_scale k)
  exact ⟨by omega, hs⟩

/-- The double one. -/
def oneBits : ℕ := 1023 * 2 ^ 52

theorem scale_oneBits : scale oneBits = 1 := by
  norm_num [scale, oneBits]

theorem magnitudeBits_one : magnitudeBits 1.0 = oneBits := by decide

theorem sign_one : sign 1.0 = .positive := rfl

/-- A product with the double one, when the other factor is on the scale. -/
theorem isRounded_mul_one {x : Float} {s : Sign} {k : ℕ} (hx : IsRounded x s (scale k))
    (hk : k < infinityBits) : IsRounded (x * 1.0) s (scale k) := by
  obtain ⟨hmag, rfl⟩ := hx.eq_of_scale hk
  have hprod := isRounded_mul (isFinite_iff.2 (hmag ▸ hk))
    (isFinite_iff.2 (by rw [magnitudeBits_one]; decide) : (1.0 : Float).isFinite = true)
  unfold absValue at hprod
  rw [hmag, magnitudeBits_one, scale_oneBits, mul_one, sign_one] at hprod
  cases hs : sign x
  · rw [hs] at hprod
    exact hprod
  · rw [hs] at hprod
    exact hprod

/-- A natural number is converted with one rounding. -/
theorem isRounded_ofNat (n : ℕ) : IsRounded (ofNat n) .positive n := by
  show IsRounded (Float.ofScientific n false 0) _ _
  unfold Float.ofScientific
  split
  next hfast =>
    obtain ⟨k, hk, hscale⟩ := exists_scale_eq_natCast hfast.1
    have hnat : n.toUInt64.toNat = n := UInt64.toNat_ofNat_of_lt' (by
      show n < 2 ^ 64
      omega)
    have hconv := isRounded_toFloat n.toUInt64
    rw [hnat, ← hscale] at hconv
    rw [← hscale]
    exact isRounded_mul_one hconv hk
  next hslow =>
    have := isRounded_modelOfScientific (m := n) (e := 0) (by omega) (by omega)
    rwa [pow_zero, mul_one] at this

theorem magnitudeBits_ofNat {n : ℕ} (hn : n < 2 ^ 53) :
    scale (magnitudeBits (ofNat n)) = n ∧ magnitudeBits (ofNat n) < infinityBits := by
  obtain ⟨k, hk, hscale⟩ := exists_scale_eq_natCast hn
  have hconv := isRounded_ofNat n
  rw [← hscale] at hconv
  rw [(hconv.eq_of_scale hk).1]
  exact ⟨hscale, hk⟩

theorem IsRounded.magnitudeBits_le {x : Float} {s : Sign} {q : ℚ} {k : ℕ} (h : IsRounded x s q)
    (hq : q ≤ scale k) : magnitudeBits x ≤ k := by
  obtain ⟨j, hj, hmag, -⟩ := h
  have := hj.le_of_le_scale hq
  omega

theorem IsRounded.isFinite {x : Float} {s : Sign} {q : ℚ} {k : ℕ} (h : IsRounded x s q)
    (hq : q ≤ scale k) (hk : k < infinityBits) : x.isFinite = true := by
  rw [isFinite_iff]
  exact (h.magnitudeBits_le hq).trans_lt hk

theorem IsRounded.isNaN {x : Float} {s : Sign} {q : ℚ} (h : IsRounded x s q) : x.isNaN = false := by
  obtain ⟨k, -, hmag, -⟩ := h
  rw [isNaN_eq_false_iff]
  omega

/-- The largest finite double exceeds every power of ten of the table of powers. -/
theorem ten_pow_le_largest : (10 : ℚ) ^ 308 ≤ scale (infinityBits - 1) := by
  have hplace : infinityBits - 1 = place 2045 (2 ^ 53 - 1) := by norm_num [infinityBits, place]
  have hexp : ((2045 : ℕ) - 1074 : ℤ) = 971 := by norm_num
  rw [hplace, scale_place (by norm_num) (by norm_num), hexp]
  calc (10 : ℚ) ^ (28 * 11) = (10 ^ 28) ^ 11 := pow_mul _ _ _
    _ ≤ (2 ^ 93 * (101 / 100)) ^ 11 := pow_le_pow_left₀ (by norm_num) (by norm_num) _
    _ = 2 ^ (52 + 971) * (101 / 100) ^ 11 := by rw [mul_pow, ← pow_mul]
    _ = 2 ^ 52 * (101 / 100) ^ 11 * 2 ^ 971 := by rw [pow_add, mul_right_comm]
    _ ≤ ((2 ^ 53 - 1 : ℕ) : ℚ) * 2 ^ 971 := by
      refine mul_le_mul_of_nonneg_right ?_ (by positivity)
      norm_num

/-- The powers of ten that are kept in a table. -/
theorem powerOfTen_table : ∀ n < 23, oneBits ≤ magnitudeBits (Json.powerOfTen n) ∧
    magnitudeBits (Json.powerOfTen n) < infinityBits := by
  decide +kernel

/-- A power of ten up to 10 ^ 308 is a finite double not below one. -/
theorem powerOfTen_bounds {n : ℕ} (hn : n ≤ 308) :
    oneBits ≤ magnitudeBits (Json.powerOfTen n) ∧
      magnitudeBits (Json.powerOfTen n) < infinityBits := by
  by_cases hfast : n < 23
  · exact powerOfTen_table n hfast
  have hround : IsRounded (Json.powerOfTen n) .positive (10 ^ n) := by
    have := isRounded_modelOfScientific (m := 1) one_pos (by omega : n ≤ 2048)
    rw [Nat.cast_one, one_mul] at this
    unfold Json.powerOfTen Float.ofScientific
    rw [dif_neg (by omega)]
    exact this
  have hlow : scale oneBits ≤ 10 ^ n := by
    rw [scale_oneBits]
    exact one_le_pow₀ (by norm_num)
  have hhigh : (10 : ℚ) ^ n ≤ scale (infinityBits - 1) := by
    calc (10 : ℚ) ^ n ≤ 10 ^ 308 := pow_le_pow_right₀ (by norm_num) hn
      _ ≤ scale (infinityBits - 1) := ten_pow_le_largest
  have hmax := hround.magnitudeBits_le hhigh
  obtain ⟨k, hk, hmag, -⟩ := hround
  have hmin := hk.le_of_scale_le hlow
  unfold oneBits infinityBits at *
  omega

/-! ## Quotients and one -/

/-- Dividing by a double that is at least one does not enlarge. -/
theorem magnitudeBits_div_le {x y : Float} (hx : x.isFinite = true) (hy : y.isFinite = true)
    (hone : oneBits ≤ magnitudeBits y) : magnitudeBits (x / y) ≤ magnitudeBits x := by
  refine (isRounded_div hx hy (by unfold oneBits at hone; omega)).magnitudeBits_le ?_
  have hy' : 1 ≤ absValue y := by
    rw [← scale_oneBits]
    exact scale_le_scale.2 hone
  exact div_le_self (scale_nonneg _) hy'

/-- A rounded quotient is at most one exactly when the dividend does not exceed the
divisor. -/
theorem magnitudeBits_div_le_one_iff {x y : Float} (hx : x.isFinite = true)
    (hy : y.isFinite = true) (hzero : 0 < magnitudeBits y) :
    magnitudeBits (x / y) ≤ oneBits ↔ magnitudeBits x ≤ magnitudeBits y := by
  have hround := isRounded_div hx hy hzero
  have hpos : 0 < absValue y := scale_pos.2 hzero
  constructor
  · intro hle
    by_contra hlt
    obtain ⟨k, hk, hmag, -⟩ := hround
    -- Even the next double above the divisor makes a quotient beyond the middle of one and
    -- its successor, because a value has at most 53 bits.
    have hgap := scale_lt_gap (magnitudeBits y)
    have hnext : scale (magnitudeBits y + 1) ≤ absValue x := scale_le_scale.2 (by omega)
    have hmid : midpoint oneBits = 1 + 1 / 2 ^ 53 := by norm_num [midpoint, scale, oneBits]
    have hbeyond : midpoint oneBits < absValue x / absValue y := by
      rw [hmid, lt_div_iff₀ hpos]
      unfold absValue at *
      linarith
    have := hk.lt_of_midpoint_lt hbeyond
    unfold oneBits infinityBits at *
    omega
  · intro hle
    refine hround.magnitudeBits_le ?_
    rw [scale_oneBits, div_le_one hpos]
    exact scale_le_scale.2 hle

theorem zero_le_iff {x : Float} (hx : x.isNaN = false) : 0.0 ≤ x ↔ 0 ≤ signedNumber x :=
  le_iff rfl hx

theorem zero_lt_iff {x : Float} (hx : x.isNaN = false) : 0.0 < x ↔ 0 < signedNumber x :=
  lt_iff rfl hx

theorem signedNumber_one : signedNumber 1.0 = oneBits := rfl

theorem isNaN_of_isFinite {x : Float} (hx : x.isFinite = true) : x.isNaN = false := by
  rw [isFinite_iff] at hx
  exact isNaN_eq_false_iff.2 hx.le

/-- A double that is not negative is its own absolute value, up to the sign of zero. -/
theorem signedNumber_of_nonneg {x : Float} (h : 0 ≤ signedNumber x) :
    signedNumber x = magnitudeBits x := by
  rw [signedNumber_eq] at *
  split_ifs at * <;> omega

theorem isNaN_div {x y : Float} (hx : x.isFinite = true) (hy : y.isFinite = true)
    (hzero : 0 < magnitudeBits y) : (x / y).isNaN = false :=
  (isRounded_div hx hy hzero).isNaN

/-- A quotient of doubles that are not negative is not negative. -/
theorem signedNumber_div {x y : Float} (hx : x.isFinite = true) (hy : y.isFinite = true)
    (hx0 : 0 ≤ signedNumber x) (hy0 : 0 < signedNumber y) :
    signedNumber (x / y) = magnitudeBits (x / y) := by
  have hmag : 0 < magnitudeBits y := by
    have := signedNumber_of_nonneg hy0.le
    omega
  have hposy : sign y = .positive := by
    unfold sign
    rw [signedNumber_eq] at hy0
    split_ifs at * <;> first | rfl | omega
  have hround := isRounded_div hx hy hmag
  rw [hposy] at hround
  unfold signedNumber
  obtain ⟨k, hk, hk', hs⟩ := hround
  rw [hs]
  cases hsx : sign x with
  | positive => rfl
  | negative =>
    -- A dividend that is not negative and has the negative sign is minus zero.
    have hzero : magnitudeBits x = 0 := by
      unfold signedNumber at hx0
      rw [hsx] at hx0
      simp only [Sign.apply] at hx0
      omega
    unfold absValue at hk
    rw [hzero, scale_zero, zero_div, ← scale_zero] at hk
    obtain rfl := hk.unique (isNearest_scale 0)
    rw [hk', Nat.zero_min]
    rfl

/-- The rounded quotient is at most one exactly when the dividend does not exceed the
divisor. -/
theorem div_le_one_iff {x y : Float} (hx : x.isFinite = true) (hy : y.isFinite = true)
    (hx0 : 0.0 ≤ x) (hy0 : 0.0 < y) : x / y ≤ 1.0 ↔ x ≤ y := by
  have hxn := isNaN_of_isFinite hx
  have hyn := isNaN_of_isFinite hy
  rw [zero_le_iff hxn] at hx0
  rw [zero_lt_iff hyn] at hy0
  have hy' := signedNumber_of_nonneg hy0.le
  have hzero : 0 < magnitudeBits y := by omega
  rw [le_iff (isNaN_div hx hy hzero) rfl, le_iff hxn hyn, signedNumber_div hx hy hx0 hy0,
    signedNumber_one, signedNumber_of_nonneg hx0, hy', Nat.cast_le, Nat.cast_le]
  exact magnitudeBits_div_le_one_iff hx hy hzero

/-! ## Results that are numbers -/

theorem isNaN_ofNat (n : ℕ) : (ofNat n).isNaN = false := (isRounded_ofNat n).isNaN

theorem sign_ofNat (n : ℕ) : sign (ofNat n) = .positive := by
  obtain ⟨_, -, -, hs⟩ := isRounded_ofNat n
  exact hs

/-- A product of an infinite factor and a finite one other than zero is infinite. -/
theorem mul_of_infinite {x y : Float} (hx : magnitudeBits x = infinityBits)
    (hy : y.isFinite = true) (hzero : 0 < magnitudeBits y) :
    x * y = packed (.infinity (sign x * sign y)) := by
  show packed (UnpackedFloat.mul Format.binary64 x.toModel.unpack y.toModel.unpack) = _
  rcases unpack_of_isFinite hy with ⟨hk, -⟩ | ⟨e, n, hpos, -, -, -, hu⟩
  · omega
  · rw [unpack_of_infinite hx, hu]
    rfl

/-- A product with a finite factor other than zero is a number where the other factor is one,
be it infinite. -/
theorem isNaN_mul {x y : Float} (hx : x.isNaN = false) (hy : y.isFinite = true)
    (hzero : 0 < magnitudeBits y) : (x * y).isNaN = false := by
  by_cases hfin : x.isFinite = true
  · exact (isRounded_mul hfin hy).isNaN
  have hinf : magnitudeBits x = infinityBits := by
    rw [isFinite_iff] at hfin
    rw [isNaN_eq_false_iff] at hx
    omega
  rw [mul_of_infinite hinf hy hzero, isNaN_eq_false_iff]
  exact (magnitudeBits_packedInfinity rfl).1.le

/-! ## Negation and truncation -/

theorem magnitudeBits_neg {x : Float} (hx : x.isFinite = true) :
    magnitudeBits (-x) = magnitudeBits x := by
  show magnitudeBits (packed x.toModel.unpack.neg) = _
  rcases unpack_of_isFinite hx with ⟨hk, hu⟩ | ⟨e, n, hpos, hn, h, hk, hu⟩
  · rw [hk, hu]
    exact (packed_zero _).1
  · rw [hu]
    rw [isFinite_iff, hk] at hx
    have := (packed_finite (-(sign x)) hn h hpos).1
    rw [hk]
    exact this.trans (by omega)

theorem isFinite_neg {x : Float} (hx : x.isFinite = true) : (-x).isFinite = true := by
  rw [isFinite_iff, magnitudeBits_neg hx]
  exact isFinite_iff.1 hx

theorem toNat_ofNatClamp (n : ℕ) : (UInt64.ofNatClamp n).toNat = min n (2 ^ 64 - 1) := by
  unfold UInt64.ofNatClamp
  split
  next h =>
    have hlt : n < 2 ^ 64 := h
    rw [UInt64.toNat_ofNatLT]
    omega
  next h =>
    have hge : ¬ n < 2 ^ 64 := h
    rw [UInt64.toNat_ofNatLT]
    show 2 ^ 64 - 1 = _
    omega

/-- Rounding to an integer cuts off the fraction. -/
theorem roundToInt_eq (s : Sign) (m : ℕ) (i : ℤ) :
    roundToInt s m i = s.apply ((⌊(m : ℚ) * 2 ^ i⌋₊ : ℕ) : ℤ) := by
  unfold roundToInt decreaseExponent shiftToExponent
  simp only [mantissa_shiftRight, mantissa_ofMantissaAndAccuracy, Nat.shiftLeft_eq]
  congr 2
  rcases le_total 0 i with hi | hi
  · obtain ⟨n, rfl⟩ := Int.eq_ofNat_of_zero_le hi
    have hcast : (m : ℚ) * 2 ^ (n : ℤ) = (m * 2 ^ n : ℕ) := by
      push_cast
      rfl
    rw [hcast, Nat.floor_natCast]
    simp
  · obtain ⟨n, hn⟩ := Int.eq_ofNat_of_zero_le (by omega : 0 ≤ -i)
    obtain rfl : i = -n := by omega
    have hcast : (m : ℚ) * 2 ^ (-(n : ℤ)) = (m : ℚ) / (2 ^ n : ℕ) := by
      rw [zpow_neg, zpow_natCast]
      push_cast
      rfl
    rw [hcast, Nat.floor_div_eq_div]
    simp

theorem roundToInt_le (s : Sign) (m : ℕ) (i : ℤ) :
    ((roundToInt s m i).toNat : ℚ) ≤ m * 2 ^ i := by
  rw [roundToInt_eq]
  cases s with
  | positive => exact Nat.floor_le (by positivity)
  | negative =>
    simp only [Sign.apply]
    rw [Int.toNat_of_nonpos (neg_nonpos.2 (Int.natCast_nonneg _))]
    positivity

/-- Truncation does not enlarge. -/
theorem toUInt64_le {x : Float} (hx : x.isFinite = true) :
    (x.toUInt64.toNat : ℚ) ≤ absValue x := by
  show ((UInt64.ofNatClamp (x.toModel.unpack.toInt 0 (UInt64.size - 1)).toNat).toNat : ℚ) ≤ _
  rw [toNat_ofNatClamp]
  refine (Nat.cast_le.2 (min_le_left _ _)).trans ?_
  unfold absValue
  rcases unpack_of_isFinite hx with ⟨hk, hu⟩ | ⟨e, n, hpos, hn, h, hk, hu⟩
  · rw [hk, hu, scale_zero]
    exact le_rfl
  · rw [hk, hu, scale_place hn.le h]
    exact roundToInt_le _ _ _

end FigureData.Binary64
