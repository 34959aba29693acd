/-
  Sums and differences of doubles are correctly rounded, and when they stay finite.

  Proved:
  * `rounds_add`, `rounds_sub`, `rounds_mul`: sum, difference and product of finite doubles are
    the rational ones of their values, rounded, the sign included.
  * `magnitudeBits_add_le`, `magnitudeBits_sub_le`: a result does not pass a double that its
    operands stay below by less than half a step.
  * `isFinite_sum_ofNat`: so a sum of counts of 64 bits is finite, however many there are.
  * `isFinite_complement`: and so is the complement of a finite double to one.
-/
import FigureData.Proofs.Binary64.Arithmetic
import Mathlib.Algebra.Order.Group.Unbundled.Abs

namespace FigureData.Binary64

open Float.Model
open Float.Model.UnpackedFloat

/-! ## Values with a sign -/

/-- The value of a double. -/
def value (x : Float) : ℚ :=
  match sign x with
  | .positive => absValue x
  | .negative => -absValue x

theorem abs_value (x : Float) : |value x| = absValue x := by
  have hnonneg : 0 ≤ absValue x := scale_nonneg _
  unfold value
  split
  · exact abs_of_nonneg hnonneg
  · rw [abs_neg, abs_of_nonneg hnonneg]

/-- The rational that an unpacked double stands for. -/
inductive Denotes : UnpackedFloat → ℚ → Prop
  | zero (s : Sign) : Denotes (.zero s) 0
  | finite (s : Sign) {e n : ℕ} (hpos : 0 < n) (hn : n < 2 ^ 53) (h : 2 ^ 52 ≤ n ∨ e = 0) :
      Denotes (.finite s n (e - 1074) hpos) ((s.apply n : ℤ) * 2 ^ ((e : ℤ) - 1074))

theorem denotes_unpack {x : Float} (hx : x.isFinite = true) :
    Denotes x.toModel.unpack (value x) := by
  unfold value absValue
  rcases unpack_of_isFinite hx with ⟨hk, hu⟩ | ⟨e, n, hpos, hn, h, hk, hu⟩
  · rw [hk, hu, scale_zero]
    split
    · exact .zero _
    · rw [neg_zero]
      exact .zero _
  · rw [hk, hu, scale_place hn.le h]
    have hvalue := Denotes.finite (sign x) hpos hn h
    split
    next hs =>
      rw [hs] at hvalue ⊢
      exact hvalue
    next hs =>
      rw [hs] at hvalue ⊢
      rw [← neg_mul]
      have hcast : ((Sign.negative.apply n : ℤ) : ℚ) = -n := by
        show ((-(n : ℤ) : ℤ) : ℚ) = -n
        push_cast
        rfl
      rwa [hcast] at hvalue

theorem Denotes.neg {u : UnpackedFloat} {q : ℚ} (h : Denotes u q) : Denotes u.neg (-q) := by
  cases h with
  | zero s =>
    rw [neg_zero]
    exact .zero _
  | @finite s e n hpos hn h =>
    have hvalue := Denotes.finite (-s) hpos hn h
    have hcast : (((-s).apply n : ℤ) : ℚ) = -((s.apply n : ℤ) : ℚ) := by
      cases s with
      | positive =>
        show ((-(n : ℤ) : ℤ) : ℚ) = -((n : ℤ) : ℚ)
        push_cast
        rfl
      | negative =>
        show ((n : ℤ) : ℚ) = -((-(n : ℤ) : ℤ) : ℚ)
        push_cast
        rw [neg_neg]
    rw [hcast, neg_mul] at hvalue
    exact hvalue

/-! ## Rounded sums -/

/-- The double `x` is the rational `q`, rounded, with the sign of `q`; a zero may have either
sign. -/
def Rounds (x : Float) (q : ℚ) : Prop :=
  ∃ s, IsRounded x s |q| ∧ (0 < q → s = .positive) ∧ (q < 0 → s = .negative)

theorem Rounds.of_pos {x : Float} {q : ℚ} (hq : 0 < q) (h : IsRounded x .positive |q|) :
    Rounds x q :=
  ⟨_, h, fun _ => rfl, fun hneg => absurd hneg hq.asymm⟩

theorem Rounds.of_neg {x : Float} {q : ℚ} (hq : q < 0) (h : IsRounded x .negative |q|) :
    Rounds x q :=
  ⟨_, h, fun hpos => absurd hpos hq.asymm, fun _ => rfl⟩

theorem rounds_zero (s : Sign) : Rounds (packed (.zero s)) 0 := by
  refine ⟨s, ?_, fun h => absurd h (lt_irrefl _), fun h => absurd h (lt_irrefl _)⟩
  rw [abs_zero]
  exact isRounded_zero s

/-- A double is its own rounding. -/
theorem rounds_packed {u : UnpackedFloat} {q : ℚ} (h : Denotes u q) : Rounds (packed u) q := by
  cases h with
  | zero s => exact rounds_zero s
  | @finite s e n hpos hn h =>
    have habs : |((s.apply n : ℤ) : ℚ) * 2 ^ ((e : ℤ) - 1074)| = scale (place e n) := by
      rw [scale_place hn.le h, abs_mul, abs_of_pos (by positivity : (0 : ℚ) < 2 ^ ((e : ℤ) - 1074))]
      congr 1
      cases s with
      | positive =>
        show |((n : ℤ) : ℚ)| = n
        rw [Int.cast_natCast, Nat.abs_cast]
      | negative =>
        show |((-(n : ℤ) : ℤ) : ℚ)| = n
        rw [Int.cast_neg, abs_neg, Int.cast_natCast, Nat.abs_cast]
    obtain ⟨hmag, hsign⟩ := packed_finite s hn h hpos
    have hround : IsRounded (packed (.finite s n (e - 1074) hpos)) s
        |((s.apply n : ℤ) : ℚ) * 2 ^ ((e : ℤ) - 1074)| := by
      rw [habs]
      exact ⟨place e n, isNearest_scale _, hmag, hsign⟩
    have hpow : (0 : ℚ) < 2 ^ ((e : ℤ) - 1074) := by positivity
    have hn' : (0 : ℚ) < n := by exact_mod_cast hpos
    cases s with
    | positive =>
      refine .of_pos (mul_pos ?_ hpow) hround
      show (0 : ℚ) < ((n : ℤ) : ℚ)
      rwa [Int.cast_natCast]
    | negative =>
      refine .of_neg (mul_neg_of_neg_of_pos ?_ hpow) hround
      show ((-(n : ℤ) : ℤ) : ℚ) < 0
      push_cast
      linarith

theorem rounds_normalize (m i : ℤ) (s : Sign) :
    Rounds (packed (UnpackedFloat.normalize Format.binary64 m i s)) ((m : ℚ) * 2 ^ i) := by
  have hpow : (0 : ℚ) < 2 ^ i := by positivity
  have habs : |(m : ℚ) * 2 ^ i| = |(m : ℚ)| * 2 ^ i := by rw [abs_mul, abs_of_pos hpow]
  unfold UnpackedFloat.normalize
  split
  next hm =>
    rw [compare_lt_iff_lt] at hm
    have hcast : |(m : ℚ)| = ((-m).toNat : ℕ) := by
      rw [← Int.cast_abs, abs_of_neg hm]
      exact_mod_cast (Int.toNat_of_nonneg (by omega)).symm
    refine .of_neg (mul_neg_of_neg_of_pos (by exact_mod_cast hm) hpow) ?_
    rw [habs, hcast]
    exact isRounded_round _ (by omega) _
  next hm =>
    rw [compare_eq_iff_eq] at hm
    rw [hm, Int.cast_zero, zero_mul]
    exact rounds_zero s
  next hm =>
    rw [compare_gt_iff_gt] at hm
    have hcast : |(m : ℚ)| = (m.toNat : ℕ) := by
      rw [← Int.cast_abs, abs_of_pos hm]
      exact_mod_cast (Int.toNat_of_nonneg hm.le).symm
    refine .of_pos (mul_pos (by exact_mod_cast hm) hpow) ?_
    rw [habs, hcast]
    exact isRounded_round _ (by omega) _

/-- Aligning a significand keeps the value. -/
theorem apply_decreaseExponent (s : Sign) (m : ℕ) {i target : ℤ} (h : target ≤ i) :
    ((s.apply ((decreaseExponent m i target).1 : ℕ) : ℤ) : ℚ) * 2 ^ target =
      (s.apply (m : ℤ) : ℤ) * 2 ^ i := by
  have hshift : ((decreaseExponent m i target).1 : ℚ) * 2 ^ target = m * 2 ^ i := by
    unfold decreaseExponent
    simp only [Nat.shiftLeft_eq]
    push_cast
    rw [mul_assoc, ← zpow_natCast, ← zpow_add₀ (by norm_num), Int.toNat_of_nonneg (by omega)]
    congr 2
    ring
  cases s with
  | positive =>
    show (((decreaseExponent m i target).1 : ℤ) : ℚ) * 2 ^ target = ((m : ℤ) : ℚ) * 2 ^ i
    exact_mod_cast hshift
  | negative =>
    show ((-((decreaseExponent m i target).1 : ℤ) : ℤ) : ℚ) * 2 ^ target =
      ((-(m : ℤ) : ℤ) : ℚ) * 2 ^ i
    push_cast
    rw [neg_mul, neg_mul, hshift]

theorem add_zero_left (f : Format) (s t : Sign) {m : ℕ} (i : ℤ) (hm : 0 < m) :
    UnpackedFloat.add f (.zero s) (.finite t m i hm) = .finite t m i hm := rfl

theorem add_zero_right (f : Format) (s t : Sign) {m : ℕ} (i : ℤ) (hm : 0 < m) :
    UnpackedFloat.add f (.finite s m i hm) (.zero t) = .finite s m i hm := rfl

theorem add_finite (f : Format) (s t : Sign) {m n : ℕ} (i j : ℤ) (hm : 0 < m) (hn : 0 < n) :
    UnpackedFloat.add f (.finite s m i hm) (.finite t n j hn) =
      UnpackedFloat.normalize f (s.apply ((decreaseExponent m i (min i j)).1 : ℕ) +
        t.apply ((decreaseExponent n j (min i j)).1 : ℕ)) (min i j) .positive := rfl

theorem rounds_addCore {u v : UnpackedFloat} {p q : ℚ} (hu : Denotes u p) (hv : Denotes v q) :
    Rounds (packed (UnpackedFloat.add Format.binary64 u v)) (p + q) := by
  cases hu with
  | zero s =>
    cases hv with
    | zero t =>
      rw [add_zero]
      unfold UnpackedFloat.add
      simp only
      split
      · exact rounds_zero _
      · exact rounds_zero _
    | finite t hpos hn h =>
      rw [zero_add, add_zero_left]
      exact rounds_packed (.finite t hpos hn h)
  | @finite s e n hpos hn h =>
    cases hv with
    | zero t =>
      rw [add_zero, add_zero_right]
      exact rounds_packed (.finite s hpos hn h)
    | @finite t e' n' hpos' hn' h' =>
      rw [add_finite, ← apply_decreaseExponent s n (min_le_left _ ((e' : ℤ) - 1074)),
        ← apply_decreaseExponent t n' (min_le_right ((e : ℤ) - 1074) _), ← add_mul,
        ← Int.cast_add]
      exact rounds_normalize _ _ _

/-- A difference is a sum with the negated operand. -/
theorem sub_eq_add (f : Format) (u v : UnpackedFloat) :
    UnpackedFloat.sub f u v = UnpackedFloat.add f u v.neg := by
  cases u with
  | finite s m i hm =>
    cases v with
    | finite t n j hn =>
      have happly : ∀ k : ℤ, (-t).apply k = -t.apply k := by
        intro k
        cases t with
        | positive => rfl
        | negative => exact (neg_neg k).symm
      show UnpackedFloat.normalize f (s.apply _ - t.apply _) _ _ =
        UnpackedFloat.normalize f (s.apply _ + (-t).apply _) _ _
      rw [happly, sub_eq_add_neg]
    | _ => rfl
  | _ => cases v <;> rfl

section Add

variable {x y : Float}

/-- The sum of finite doubles is their rational sum, rounded. -/
theorem rounds_add (hx : x.isFinite = true) (hy : y.isFinite = true) :
    Rounds (x + y) (value x + value y) :=
  rounds_addCore (denotes_unpack hx) (denotes_unpack hy)

/-- The difference of finite doubles is their rational difference, rounded. -/
theorem rounds_sub (hx : x.isFinite = true) (hy : y.isFinite = true) :
    Rounds (x - y) (value x - value y) := by
  show Rounds (packed (UnpackedFloat.sub Format.binary64 x.toModel.unpack y.toModel.unpack)) _
  rw [sub_eq_add, sub_eq_add_neg]
  exact rounds_addCore (denotes_unpack hx) (denotes_unpack hy).neg

/-- The product of finite doubles is their rational product, rounded. -/
theorem rounds_mul (hx : x.isFinite = true) (hy : y.isFinite = true) :
    Rounds (x * y) (value x * value y) := by
  have hround := isRounded_mul hx hy
  rw [← abs_value, ← abs_value, ← abs_mul] at hround
  have hnonneg : 0 ≤ absValue x * absValue y := mul_nonneg (scale_nonneg _) (scale_nonneg _)
  refine ⟨_, hround, ?_⟩
  unfold value
  -- Equal signs make a product that is not negative, other signs one that is not positive.
  cases sign x <;> cases sign y <;> simp only [neg_mul, mul_neg, neg_neg]
  · exact ⟨fun _ => rfl, fun h => absurd hnonneg (not_le.2 h)⟩
  · exact ⟨fun h => absurd hnonneg (not_le.2 (neg_pos.1 h)), fun _ => rfl⟩
  · exact ⟨fun h => absurd hnonneg (not_le.2 (neg_pos.1 h)), fun _ => rfl⟩
  · exact ⟨fun _ => rfl, fun h => absurd hnonneg (not_le.2 h)⟩

/-- A result does not pass a double that the exact one exceeds by less than half a step. -/
theorem IsRounded.magnitudeBits_le_of_lt {s : Sign} {q : ℚ} {k : ℕ} (h : IsRounded x s q)
    (hq : q < midpoint k) : magnitudeBits x ≤ k := by
  obtain ⟨j, hj, hmag, -⟩ := h
  by_contra hlt
  obtain ⟨i, rfl⟩ : ∃ i, j = i + 1 := ⟨j - 1, by omega⟩
  have hbelow := hj.midpoint_le rfl
  have hmono : midpoint k ≤ midpoint i := strictMono_midpoint.monotone (by omega)
  linarith

theorem magnitudeBits_add_le (hx : x.isFinite = true) (hy : y.isFinite = true) {k : ℕ}
    (h : absValue x + absValue y < midpoint k) : magnitudeBits (x + y) ≤ k := by
  obtain ⟨s, hsum, -⟩ := rounds_add hx hy
  have habs := abs_add_le (value x) (value y)
  rw [abs_value, abs_value] at habs
  exact hsum.magnitudeBits_le_of_lt (habs.trans_lt h)

theorem magnitudeBits_sub_le (hx : x.isFinite = true) (hy : y.isFinite = true) {k : ℕ}
    (h : absValue x + absValue y < midpoint k) : magnitudeBits (x - y) ≤ k := by
  obtain ⟨s, hdiff, -⟩ := rounds_sub hx hy
  have habs := abs_sub (value x) (value y)
  rw [abs_value, abs_value] at habs
  exact hdiff.magnitudeBits_le_of_lt (habs.trans_lt h)

end Add

/-! ## Results that stay finite -/

/-- Half a step is more than what is lost beyond 53 bits. -/
theorem add_lt_midpoint {k : ℕ} {p q : ℚ} (hp : p ≤ scale k) (hq : 2 ^ 54 * q ≤ scale k) :
    p + q < midpoint k := by
  have hgap := scale_lt_gap k
  unfold midpoint
  linarith

/-- The complement of a finite double to one is finite. -/
theorem isFinite_complement {x : Float} (hx : x.isFinite = true) : (1.0 - x).isFinite = true := by
  have hlargest := ten_pow_le_largest
  have hone : (1.0 : Float).isFinite = true := rfl
  have habs : absValue x ≤ scale (infinityBits - 1) := by
    rw [isFinite_iff] at hx
    exact scale_le_scale.2 (by omega)
  have hvalue : absValue 1.0 = 1 := by
    rw [absValue, magnitudeBits_one, scale_oneBits]
  have hle : magnitudeBits (1.0 - x) ≤ infinityBits - 1 := by
    refine magnitudeBits_sub_le hone hx ?_
    rw [hvalue, add_comm]
    refine add_lt_midpoint habs (le_trans ?_ hlargest)
    calc (2 : ℚ) ^ 54 * 1 ≤ 10 ^ 17 := by norm_num
      _ ≤ 10 ^ 308 := pow_le_pow_right₀ (by norm_num) (by norm_num)
  rw [isFinite_iff]
  unfold infinityBits at hle ⊢
  omega

/-- Where the sum of counts stands still. -/
def countLimit : ℕ := 1141 * 2 ^ 52

theorem magnitudeBits_foldl_add_le {xs : List Float}
    (hxs : ∀ x ∈ xs, x.isFinite = true ∧ absValue x ≤ 2 ^ 64) {acc : Float}
    (hacc : magnitudeBits acc ≤ countLimit) :
    magnitudeBits (xs.foldl (· + ·) acc) ≤ countLimit := by
  have hlimit : scale countLimit = 2 ^ 118 := by norm_num [scale, countLimit]
  induction xs generalizing acc with
  | nil => exact hacc
  | cons x rest ih =>
    rw [List.forall_mem_cons] at hxs
    obtain ⟨⟨hfinite, hsmall⟩, hrest⟩ := hxs
    have haccFinite : acc.isFinite = true := by
      rw [isFinite_iff]
      unfold countLimit at hacc
      unfold infinityBits
      omega
    refine ih hrest (magnitudeBits_add_le haccFinite hfinite ?_)
    -- A count is at most half a step beyond the limit.
    refine add_lt_midpoint (scale_le_scale.2 hacc) ?_
    rw [hlimit]
    calc (2 : ℚ) ^ 54 * absValue x ≤ 2 ^ 54 * 2 ^ 64 := by gcongr
      _ = 2 ^ 118 := by norm_num

/-- Counts of 64 bits are finite. -/
theorem ofNat_bounds {n : ℕ} (hn : n < 2 ^ 64) :
    (ofNat n).isFinite = true ∧ absValue (ofNat n) ≤ 2 ^ 64 := by
  have hscale : scale (1087 * 2 ^ 52) = 2 ^ 64 := by norm_num [scale]
  have hround : (n : ℚ) ≤ scale (1087 * 2 ^ 52) := by
    rw [hscale]
    exact_mod_cast hn.le
  have hbits := (isRounded_ofNat n).magnitudeBits_le hround
  refine ⟨(isRounded_ofNat n).isFinite hround (by norm_num [infinityBits]), ?_⟩
  rw [← hscale]
  exact scale_le_scale.2 hbits

/-- A sum of counts of 64 bits is finite, however many there are. -/
theorem isFinite_sum_ofNat {xs : List Float} (hxs : ∀ x ∈ xs, ∃ n < 2 ^ 64, x = ofNat n) :
    (sum xs).isFinite = true := by
  have hle : magnitudeBits (sum xs) ≤ countLimit := by
    refine magnitudeBits_foldl_add_le ?_ (by decide)
    intro x hx
    obtain ⟨n, hn, rfl⟩ := hxs x hx
    exact ofNat_bounds hn
  rw [isFinite_iff]
  unfold countLimit at hle
  unfold infinityBits
  omega

end FigureData.Binary64
