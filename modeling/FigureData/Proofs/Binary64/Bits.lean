/-
  What the bits of a double say about its value.

  The bits below the sign of a double are its number on the scale, and infinity and
  the values that are not numbers come after every finite value.  The arithmetic
  unpacks its operands and packs its results; here both directions are stated with
  the sign and the number.

  Proved:
  * `unpacks`: the sign and the number decide what a double unpacks to.
  * `packed_finite`: the number of a packed result; a result too large
    for the format becomes infinity.
  * `isNaN_iff`, `isFinite_iff`: which doubles are not numbers, and which are finite.
  * `le_iff`, `lt_iff`, `beq_iff`: doubles that are numbers compare as their signed numbers.
  * `le_of_totalLe`: the total order refines that comparison.
  * `totalKey_inj`, `sort_congr`: it parts any two doubles, so sorting forgets the order.
-/
import FigureData.Number.Binary64
import FigureData.Proofs.Binary64.Nearest
import Mathlib

namespace FigureData.Binary64

open Float.Model
open Float.Model.UnpackedFloat

/-! ## Unpacking -/

/-- The sign of a double, zeros and values that are not numbers included. -/
def sign (x : Float) : Sign := if isNegative x then .negative else .positive

theorem magnitudeBits_eq (x : Float) : magnitudeBits x = x.toBits.toNat % 2 ^ 63 := by
  unfold magnitudeBits
  rw [UInt64.toNat_and]
  exact Nat.and_two_pow_sub_one_eq_mod _ 63

theorem isNegative_eq (x : Float) : isNegative x = decide (2 ^ 63 ≤ x.toBits.toNat) := by
  have hlt := x.toBits.toNat_lt
  unfold isNegative
  rw [Bool.eq_iff_iff, beq_iff_eq, ← UInt64.toNat_inj, UInt64.toNat_shiftRight]
  simp only [UInt64.reduceToNat, Nat.shiftRight_eq_div_pow, Nat.reduceMod, decide_eq_true_eq]
  omega

theorem toNat_unpackMantissa (b : BitVec Format.binary64.numBits) :
    (unpackMantissa b).toNat = b.toNat % 2 ^ 52 := by
  simp [unpackMantissa]

theorem toNat_unpackExponent (b : BitVec Format.binary64.numBits) :
    (unpackExponent b).toNat = b.toNat / 2 ^ 52 % 2 ^ 11 := by
  simp [unpackExponent, Nat.shiftRight_eq_div_pow]

theorem toNat_unpackSign (b : BitVec Format.binary64.numBits) :
    (unpackSign b).toNat = b.toNat / 2 ^ 63 % 2 := by
  simp [unpackSign, Nat.shiftRight_eq_div_pow]

/-- How a double with sign `s` and number `k` unpacks. -/
inductive Unpacks (s : Sign) : ℕ → UnpackedFloat → Prop
  | zero : Unpacks s 0 (.zero s)
  | finite {e n : ℕ} (hn : n < 2 ^ 53) (h : 2 ^ 52 ≤ n ∨ e = 0) (hpos : 0 < n)
      (hmax : place e n < infinityBits) : Unpacks s (place e n) (.finite s n (e - 1074) hpos)
  | infinity : Unpacks s infinityBits (.infinity s)
  | notANumber {k : ℕ} (hk : infinityBits < k) : Unpacks s k .notANumber

theorem Unpacks.finite_of_eq {s : Sign} {k e n m : ℕ} {i : ℤ} (hpos : 0 < m) (hm : m = n)
    (hi : i = e - 1074) (hk : k = place e n) (hn : n < 2 ^ 53) (h : 2 ^ 52 ≤ n ∨ e = 0)
    (hmax : k < infinityBits) : Unpacks s k (.finite s m i hpos) := by
  subst hm hi hk
  exact .finite hn h hpos hmax

theorem exponent_full {e : BitVec Format.binary64.exponentBits} :
    e = -1#(Format.binary64.exponentBits) ↔ e.toNat = 2047 := by
  rw [← BitVec.toNat_inj]
  rfl

theorem exponent_zero {e : BitVec Format.binary64.exponentBits} :
    e = 0#(Format.binary64.exponentBits) ↔ e.toNat = 0 := by
  rw [← BitVec.toNat_inj]
  rfl

theorem mantissa_zero {m : BitVec Format.binary64.mantissaBitsWithoutImplicit} :
    m = 0#(Format.binary64.mantissaBitsWithoutImplicit) ↔ m.toNat = 0 := by
  rw [← BitVec.toNat_inj]
  rfl

theorem toNat_append_implicit (m : BitVec Format.binary64.mantissaBitsWithoutImplicit) :
    (1#1 ++ m).toNat = 2 ^ 52 + m.toNat := by
  have hlt : m.toNat < 2 ^ 52 := m.isLt
  rw [BitVec.toNat_append, ← Nat.shiftLeft_add_eq_or_of_lt m.isLt]
  simp [Nat.shiftLeft_eq]

theorem bias : (Format.binary64.exponentBias : ℤ) + Format.binary64.mantissaBitsWithoutImplicit =
    1075 := rfl

theorem unpacks_bits (b : BitVec Format.binary64.numBits) :
    Unpacks (Sign.ofBitVec (unpackSign b)) (b.toNat % 2 ^ 63)
      (UnpackedFloat.unpack Format.binary64 b) := by
  have hmant := toNat_unpackMantissa b
  have hexp := toNat_unpackExponent b
  generalize b.toNat = N at *
  fun_cases UnpackedFloat.unpack Format.binary64 b with
  | case1 _ _ _ _ hfull hzero =>
    rw [exponent_full, hexp] at hfull
    rw [mantissa_zero, hmant] at hzero
    have hN : N % 2 ^ 63 = infinityBits := by unfold infinityBits; omega
    rw [hN]
    exact .infinity
  | case2 _ _ hfull hzero =>
    rw [exponent_full, hexp] at hfull
    rw [mantissa_zero, hmant] at hzero
    exact .notANumber (by unfold infinityBits; omega)
  | case3 _ _ _ _ _ hlow hzero =>
    rw [exponent_zero, hexp] at hlow
    rw [mantissa_zero, hmant] at hzero
    have hN : N % 2 ^ 63 = 0 := by omega
    rw [hN]
    exact .zero
  | case4 _ _ _ _ _ _ hlow hzero =>
    rw [exponent_zero, hexp] at hlow
    rw [mantissa_zero, hmant] at hzero
    refine .finite_of_eq (e := 0) (n := N % 2 ^ 52) _ hmant ?_ ?_ ?_ ?_ ?_
    · show ((unpackExponent b).toNat : ℤ) -
        (Format.binary64.exponentBias + Format.binary64.mantissaBitsWithoutImplicit) + 1 = _
      rw [bias, hexp]
      omega
    · unfold place; omega
    · omega
    · omega
    · unfold infinityBits; omega
  | case5 _ _ _ _ _ hfull hlow =>
    rw [exponent_full, hexp] at hfull
    rw [exponent_zero, hexp] at hlow
    refine .finite_of_eq (e := N / 2 ^ 52 % 2 ^ 11 - 1) (n := 2 ^ 52 + N % 2 ^ 52) _
      ?_ ?_ ?_ ?_ ?_ ?_
    · rw [toNat_append_implicit, hmant]
    · show ((unpackExponent b).toNat : ℤ) -
        (Format.binary64.exponentBias + Format.binary64.mantissaBitsWithoutImplicit) = _
      rw [bias, hexp]
      omega
    · unfold place; omega
    · omega
    · omega
    · unfold infinityBits; omega

theorem ofBitVec_unpackSign (x : Float) :
    Sign.ofBitVec (@unpackSign Format.binary64 x.toBits.toBitVec) = sign x := by
  have hsign := toNat_unpackSign x.toBits.toBitVec
  have hlt := x.toBits.toNat_lt
  rw [UInt64.toNat_toBitVec] at hsign
  unfold Sign.ofBitVec sign
  simp only [isNegative_eq, ← BitVec.toNat_inj, hsign, BitVec.toNat_ofNat, decide_eq_true_eq]
  split <;> split <;> first | rfl | omega

/-- The sign and the number decide what a double unpacks to. -/
theorem unpacks (x : Float) : Unpacks (sign x) (magnitudeBits x) x.toModel.unpack := by
  rw [magnitudeBits_eq, ← ofBitVec_unpackSign]
  exact unpacks_bits x.toBits.toBitVec

/-! ## Packing -/

/-- The double made of an unpacked value. -/
def packed (u : UnpackedFloat) : Float := .ofModel (.pack u)

theorem toNat_append {a b : ℕ} (x : BitVec a) (y : BitVec b) :
    (x ++ y).toNat = x.toNat * 2 ^ b + y.toNat := by
  rw [BitVec.toNat_append, ← Nat.shiftLeft_add_eq_or_of_lt y.isLt, Nat.shiftLeft_eq]

theorem toNat_packComponents (s : Sign) (e : BitVec Format.binary64.exponentBits)
    (m : BitVec Format.binary64.mantissaBitsWithoutImplicit) :
    (packComponents Format.binary64 s e m).toNat =
      s.toBitVec.toNat * 2 ^ 63 + e.toNat * 2 ^ 52 + m.toNat := by
  unfold packComponents
  rw [toNat_append, toNat_append]
  show (s.toBitVec.toNat * 2 ^ 11 + e.toNat) * 2 ^ 52 + m.toNat = _
  ring

theorem toNat_toBits_packed (u : UnpackedFloat) :
    (packed u).toBits.toNat = (UnpackedFloat.pack Format.binary64 u).toNat := rfl

/-- A double whose bits are put together from a sign, an exponent and a significand. -/
theorem magnitudeBits_of_packComponents {x : Float} {s : Sign}
    {e : BitVec Format.binary64.exponentBits}
    {m : BitVec Format.binary64.mantissaBitsWithoutImplicit}
    (h : x.toBits.toNat = (packComponents Format.binary64 s e m).toNat) :
    magnitudeBits x = e.toNat * 2 ^ 52 + m.toNat ∧ sign x = s := by
  have he : e.toNat < 2 ^ 11 := e.isLt
  have hm : m.toNat < 2 ^ 52 := m.isLt
  rw [toNat_packComponents] at h
  unfold sign
  rw [magnitudeBits_eq, isNegative_eq, h]
  cases s with
  | negative =>
    have hs : Sign.negative.toBitVec.toNat = 1 := rfl
    rw [hs, if_pos (by rw [decide_eq_true_eq]; omega)]
    exact ⟨by omega, rfl⟩
  | positive =>
    have hs : Sign.positive.toBitVec.toNat = 0 := rfl
    rw [hs, if_neg (by rw [decide_eq_true_eq]; omega)]
    exact ⟨by omega, rfl⟩

theorem packed_zero (s : Sign) :
    magnitudeBits (packed (.zero s)) = 0 ∧ sign (packed (.zero s)) = s := by
  have hbits := toNat_toBits_packed (.zero s)
  unfold UnpackedFloat.pack packedZero at hbits
  exact magnitudeBits_of_packComponents hbits

theorem magnitudeBits_packedInfinity {x : Float} {s : Sign}
    (h : x.toBits.toNat = (packedInfinity Format.binary64 s).toNat) :
    magnitudeBits x = infinityBits ∧ sign x = s := by
  have hx := magnitudeBits_of_packComponents h
  have he : (-1#(Format.binary64.exponentBits)).toNat = 2047 := rfl
  have hm : (0 : BitVec Format.binary64.mantissaBitsWithoutImplicit).toNat = 0 := rfl
  rw [he, hm] at hx
  exact hx

/-- The number of a packed result; a result too large for the format becomes infinity. -/
theorem packed_finite (s : Sign) {e n : ℕ} (hn : n < 2 ^ 53) (h : 2 ^ 52 ≤ n ∨ e = 0)
    (hpos : 0 < n) :
    magnitudeBits (packed (.finite s n (e - 1074) hpos)) = min (place e n) infinityBits ∧
      sign (packed (.finite s n (e - 1074) hpos)) = s := by
  have hbits := toNat_toBits_packed (.finite s n (e - 1074) hpos)
  have hbiased : ((e : ℤ) - 1074 + Format.binary64.exponentBias +
      Format.binary64.mantissaBitsWithoutImplicit).toNat = e + 1 := by
    rw [add_assoc, bias]
    omega
  unfold UnpackedFloat.pack at hbits
  simp only [hbiased] at hbits
  split at hbits
  next hlarge =>
    have hlarge' : 2 ^ 11 ≤ e + 1 + 1 := hlarge
    have hmin : min (place e n) infinityBits = infinityBits := by
      unfold place infinityBits
      omega
    rw [hmin]
    exact magnitudeBits_packedInfinity hbits
  next hlarge =>
    have hlarge' : ¬ 2 ^ 11 ≤ e + 1 + 1 := hlarge
    have hmin : min (place e n) infinityBits = place e n := by
      unfold place infinityBits
      omega
    rw [hmin]
    split at hbits
    next hbit =>
      have hlog : n.log2 = 52 := by
        have : n.log2 + 1 = 53 := hbit
        omega
      have hnormal : 2 ^ 52 ≤ n := by
        rw [← Nat.le_log2 (by omega)]
        omega
      have := magnitudeBits_of_packComponents hbits
      rw [BitVec.toNat_ofNat, BitVec.toNat_ofNat] at this
      refine ⟨?_, this.2⟩
      rw [this.1]
      show (e + 1) % 2 ^ 11 * 2 ^ 52 + n % 2 ^ 52 = _
      unfold place
      omega
    next hbit =>
      have hlog : n.log2 ≠ 52 := by
        intro heq
        exact hbit (by rw [heq]; rfl)
      have hsub : n < 2 ^ 52 := by
        by_contra hge
        have hlow : 52 ≤ n.log2 := (Nat.le_log2 (by omega)).2 (by omega)
        have hhigh : n.log2 < 53 := (Nat.log2_lt (by omega)).2 hn
        omega
      have := magnitudeBits_of_packComponents hbits
      rw [BitVec.toNat_ofNat] at this
      refine ⟨?_, this.2⟩
      rw [this.1]
      show 0 * 2 ^ 52 + n % 2 ^ 52 = _
      unfold place
      omega

/-! ## Values that are not numbers, infinities, finite values -/

theorem isNaN_iff {x : Float} : x.isNaN = true ↔ infinityBits < magnitudeBits x := by
  show x.toModel.unpack.isNaN = true ↔ _
  have hx := unpacks x
  generalize magnitudeBits x = k, x.toModel.unpack = u at *
  rcases hx with _ | ⟨-, -, -, hmax⟩ | _ | hk
  · simp [UnpackedFloat.isNaN, infinityBits]
  · simpa [UnpackedFloat.isNaN] using hmax.le
  · simp [UnpackedFloat.isNaN]
  · simpa [UnpackedFloat.isNaN] using hk

theorem isNaN_eq_false_iff {x : Float} : x.isNaN = false ↔ magnitudeBits x ≤ infinityBits := by
  rw [← Bool.not_eq_true, isNaN_iff, Nat.not_lt]

theorem isFinite_iff {x : Float} : x.isFinite = true ↔ magnitudeBits x < infinityBits := by
  show x.toModel.unpack.isFinite = true ↔ _
  have hx := unpacks x
  generalize magnitudeBits x = k, x.toModel.unpack = u at *
  rcases hx with _ | ⟨-, -, -, hmax⟩ | _ | hk
  · simp [UnpackedFloat.isFinite, infinityBits]
  · simpa [UnpackedFloat.isFinite] using hmax
  · simp [UnpackedFloat.isFinite]
  · simpa [UnpackedFloat.isFinite] using hk.le

/-! ## Order -/

/-- The number of a double, negative for the doubles with a negative sign. -/
def signedNumber (x : Float) : ℤ := (sign x).apply (magnitudeBits x)

theorem signedNumber_eq (x : Float) :
    signedNumber x = if isNegative x then -(magnitudeBits x : ℤ) else magnitudeBits x := by
  unfold signedNumber sign
  split <;> rfl

theorem place_lt_place {e n e' n' : ℕ} (hn : n < 2 ^ 53) (h' : 2 ^ 52 ≤ n' ∨ e' = 0)
    (he : e < e') : place e n < place e' n' := by
  unfold place
  omega

theorem compare_place {e n e' n' : ℕ} (hn : n < 2 ^ 53) (h : 2 ^ 52 ≤ n ∨ e = 0)
    (hn' : n' < 2 ^ 53) (h' : 2 ^ 52 ≤ n' ∨ e' = 0) :
    (compare (e - 1074 : ℤ) (e' - 1074)).then (compare n n') =
      compare (place e n : ℤ) (place e' n') := by
  rcases lt_trichotomy e e' with hlt | rfl | hgt
  · have hplace := place_lt_place hn h' hlt
    rw [compare_lt_iff_lt.2 (by omega : (e - 1074 : ℤ) < e' - 1074),
      compare_lt_iff_lt.2 (by omega : (place e n : ℤ) < place e' n')]
    rfl
  · rw [compare_eq_iff_eq.2 rfl, Ordering.eq_then]
    unfold place
    rcases lt_trichotomy n n' with hlt | rfl | hgt
    · rw [compare_lt_iff_lt.2 hlt, compare_lt_iff_lt.2 (by omega)]
    · rw [compare_eq_iff_eq.2 rfl, compare_eq_iff_eq.2 rfl]
    · rw [compare_gt_iff_gt.2 hgt, compare_gt_iff_gt.2 (by omega)]
  · have hplace := place_lt_place hn' h hgt
    rw [compare_gt_iff_gt.2 (by omega : (e' - 1074 : ℤ) < e - 1074),
      compare_gt_iff_gt.2 (by omega : (place e' n' : ℤ) < place e n)]
    rfl

theorem place_pos {e n : ℕ} (hn : 0 < n) : 0 < place e n := by
  unfold place
  omega

theorem compare_neg (i j : ℤ) : compare (-i) (-j) = (compare i j).swap := by
  rcases lt_trichotomy i j with hlt | rfl | hgt
  · rw [compare_lt_iff_lt.2 hlt, compare_gt_iff_gt.2 (by omega)]
    rfl
  · rw [compare_eq_iff_eq.2 rfl, compare_eq_iff_eq.2 rfl]
    rfl
  · rw [compare_gt_iff_gt.2 hgt, compare_lt_iff_lt.2 (by omega)]
    rfl

theorem compare_finite {s t : Sign} {e n e' n' : ℕ} (hn : n < 2 ^ 53) (h : 2 ^ 52 ≤ n ∨ e = 0)
    (hn' : n' < 2 ^ 53) (h' : 2 ^ 52 ≤ n' ∨ e' = 0) (hpos : 0 < n) (hpos' : 0 < n') :
    (UnpackedFloat.finite s n (e - 1074) hpos).compare (.finite t n' (e' - 1074) hpos') =
      some (compare (s.apply (place e n)) (t.apply (place e' n'))) := by
  have hk := place_pos (e := e) hpos
  have hl := place_pos (e := e') hpos'
  cases s <;> cases t <;> simp only [UnpackedFloat.compare, Sign.apply, Option.some.injEq]
  · rw [compare_place hn h hn' h', compare_neg]
  · exact (compare_lt_iff_lt.2 (by omega)).symm
  · exact (compare_gt_iff_gt.2 (by omega)).symm
  · exact compare_place hn h hn' h'

/-! Comparisons in which one of the values is zero or infinite are decided by one sign. -/

/-- How a value compares with one that is closer to zero. -/
def outer : Sign → Ordering
  | .negative => .lt
  | .positive => .gt

theorem compare_outer_left {s t : Sign} {k l : ℕ} {o : Option Ordering} (hlt : l < k)
    (ho : o = some (outer s)) : o = some (compare (s.apply k) (t.apply l)) := by
  subst ho
  cases s <;> cases t <;> simp only [Sign.apply, outer, Option.some.injEq]
  · exact (compare_lt_iff_lt.2 (by omega)).symm
  · exact (compare_lt_iff_lt.2 (by omega)).symm
  · exact (compare_gt_iff_gt.2 (by omega)).symm
  · exact (compare_gt_iff_gt.2 (by omega)).symm

theorem compare_outer_right {s t : Sign} {k l : ℕ} {o : Option Ordering} (hlt : k < l)
    (ho : o = some (outer t).swap) : o = some (compare (s.apply k) (t.apply l)) := by
  subst ho
  cases s <;> cases t <;> simp only [Sign.apply, outer, Ordering.swap, Option.some.injEq]
  · exact (compare_gt_iff_gt.2 (by omega)).symm
  · exact (compare_lt_iff_lt.2 (by omega)).symm
  · exact (compare_gt_iff_gt.2 (by omega)).symm
  · exact (compare_lt_iff_lt.2 (by omega)).symm

/-- Values that are numbers compare as the integers that their signs and numbers make. -/
theorem compare_unpacked {s t : Sign} {k l : ℕ} {u v : UnpackedFloat} (hu : Unpacks s k u)
    (hv : Unpacks t l v) (hk : k ≤ infinityBits) (hl : l ≤ infinityBits) :
    u.compare v = some (compare (s.apply k) (t.apply l)) := by
  have hinf : 0 < infinityBits := by unfold infinityBits; omega
  cases hu with
  | notANumber hlarge => omega
  | zero => cases hv with
    | notANumber hlarge => omega
    | zero => cases s <;> cases t <;> rfl
    | finite _ _ hpos _ => exact compare_outer_right (place_pos hpos) (by cases t <;> rfl)
    | infinity => exact compare_outer_right hinf (by cases t <;> rfl)
  | finite hn h hpos hmax => cases hv with
    | notANumber hlarge => omega
    | zero => exact compare_outer_left (place_pos hpos) (by cases s <;> rfl)
    | finite hn' h' hpos' _ => exact compare_finite hn h hn' h' hpos hpos'
    | infinity => exact compare_outer_right hmax (by cases t <;> rfl)
  | infinity => cases hv with
    | notANumber hlarge => omega
    | zero => exact compare_outer_left hinf (by cases s <;> rfl)
    | finite _ _ _ hmax => exact compare_outer_left hmax (by cases s <;> rfl)
    | infinity =>
      cases s <;> cases t <;> simp only [Sign.apply]
      · rw [compare_eq_iff_eq.2 rfl]
        rfl
      · rw [compare_lt_iff_lt.2 (by omega)]
        rfl
      · rw [compare_gt_iff_gt.2 (by omega)]
        rfl
      · rw [compare_eq_iff_eq.2 rfl]
        rfl

/-- Nothing is below a value that is not a number. -/
theorem isNaN_of_lt {x y : Float} (h : x < y) : y.isNaN = false := by
  have hlt : decide (x.toModel.unpack.lt y.toModel.unpack = true) = true := h
  show y.toModel.unpack.isNaN = false
  generalize x.toModel.unpack = u, y.toModel.unpack = v at *
  cases v with
  | notANumber => cases u <;> simp [UnpackedFloat.lt, UnpackedFloat.compare] at hlt
  | _ => rfl

section Numbers

variable {x y : Float} (hx : x.isNaN = false) (hy : y.isNaN = false)
include hx hy

theorem compare_numbers : x.toModel.unpack.compare y.toModel.unpack =
    some (compare (signedNumber x) (signedNumber y)) :=
  compare_unpacked (unpacks x) (unpacks y) (isNaN_eq_false_iff.1 hx) (isNaN_eq_false_iff.1 hy)

theorem le_iff : x ≤ y ↔ signedNumber x ≤ signedNumber y := by
  show decide (x.toModel.unpack.le y.toModel.unpack = true) = true ↔ _
  unfold UnpackedFloat.le
  rw [decide_eq_true_eq, compare_numbers hx hy, Option.any_some, Std.isLE_compare]

theorem lt_iff : x < y ↔ signedNumber x < signedNumber y := by
  show decide (x.toModel.unpack.lt y.toModel.unpack = true) = true ↔ _
  unfold UnpackedFloat.lt
  rw [decide_eq_true_eq, compare_numbers hx hy, beq_iff_eq, Option.some.injEq, compare_lt_iff_lt]

theorem beq_iff : (x == y) = true ↔ signedNumber x = signedNumber y := by
  show x.toModel.unpack.beq y.toModel.unpack = true ↔ _
  unfold UnpackedFloat.beq
  rw [compare_numbers hx hy, beq_iff_eq, Option.some.injEq, compare_eq_iff_eq]

/-- The total order refines the comparison of numbers: it only parts the two zeros. -/
theorem le_of_totalLe (h : totalLe x y = true) : x ≤ y := by
  rw [le_iff hx hy]
  unfold totalLe totalKey at h
  rw [signedNumber_eq, signedNumber_eq]
  rw [decide_eq_true_eq] at h
  split_ifs at h ⊢ <;> omega

end Numbers

/-! ## The total order -/

/-- Different doubles have different places in the total order. -/
theorem totalKey_inj {x y : Float} : totalKey x = totalKey y ↔ x = y := by
  constructor
  · intro h
    unfold totalKey at h
    rw [magnitudeBits_eq, magnitudeBits_eq, isNegative_eq, isNegative_eq] at h
    simp only [decide_eq_true_eq] at h
    have hx := x.toBits.toNat_lt
    have hy := y.toBits.toNat_lt
    have hbits : x.toBits.toNat = y.toBits.toNat := by
      split_ifs at h <;> omega
    obtain ⟨⟨bits, _⟩⟩ := x
    obtain ⟨⟨bits', _⟩⟩ := y
    obtain rfl : bits = bits' := UInt64.toNat_inj.1 hbits
    rfl
  · intro h
    rw [h]

/-- Sign and number make a double. -/
theorem eq_of_sign_magnitudeBits {x y : Float} (hsign : sign x = sign y)
    (hmag : magnitudeBits x = magnitudeBits y) : x = y := by
  have hneg : isNegative x = isNegative y := by
    unfold sign at hsign
    rw [Bool.eq_iff_iff]
    split_ifs at hsign with hx hy hy
    · exact iff_of_true hx hy
    · exact iff_of_false hx hy
  refine totalKey_inj.1 ?_
  unfold totalKey
  rw [hneg, hmag]

/-- The total order parts any two doubles. -/
theorem eq_of_totalLe {x y : Float} (hxy : totalLe x y = true) (hyx : totalLe y x = true) :
    x = y := by
  unfold totalLe at hxy hyx
  rw [decide_eq_true_eq] at hxy hyx
  exact totalKey_inj.1 (le_antisymm hxy hyx)

/-- What is sorted does not depend on the order it came in. -/
theorem sort_congr {xs ys : List Float} (h : xs.Perm ys) : sort xs = sort ys := by
  have hperm : (sort xs).Perm (sort ys) := (sort_perm xs).trans (h.trans (sort_perm ys).symm)
  refine hperm.eq_of_pairwise ?_ (sort_pairwise xs) (sort_pairwise ys)
  intro x y _ _ hxy hyx
  exact eq_of_totalLe hxy hyx

end FigureData.Binary64
