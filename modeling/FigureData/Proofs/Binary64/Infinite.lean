/-
  Infinities and values that are not numbers in sums, differences and products.

  A result with an infinite operand is decided by the signs alone: it is that infinity again, or
  no number where infinities cancel or an infinity meets a zero factor.

  Proved:
  * `isFinite_or_isInfinite`: a number is finite or one of the two infinities.
  * `isNaN_add_right`, `isNaN_mul_left`: what is no number stays none, and it does not compare
    (`isNaN_of_le`).
  * `IsInfinite.value_bounds`: no number lies beyond an infinity.
  * `infinite_sub`, `finite_sub_infinite`, `sub_infinite`, `isNaN_infinite_mul`, `infinite_mul`,
    `mul_infinite`, `add_infinite`, `infinite_add`, `infinite_div`, `isNaN_infinite_add`: one lemma
    for each place at which an infinity may stand.
  * `isNaN_sum`, `isNaN_div_of_pos`: sums of finite doubles are numbers, and so are their means.
  * `sub_nonneg_of_le`, `mul_nonneg_of_pos`, `sub_le_self_of_nonneg`, `le_add_self_of_nonneg`:
    distances are not negative, finite or not.
-/
import FigureData.Proofs.Binary64.Monotone

namespace FigureData.Binary64

open Float.Model
open Float.Model.UnpackedFloat

variable {x y : Float} {s : Sign}

/-! ## The infinities -/

/-- The infinity with sign `s`. -/
def IsInfinite (s : Sign) (x : Float) : Prop := magnitudeBits x = infinityBits ∧ sign x = s

/-- Every number lies between the infinities. -/
theorem signedNumber_bounds (hx : x.isNaN = false) :
    -(infinityBits : ℤ) ≤ signedNumber x ∧ signedNumber x ≤ infinityBits := by
  rw [isNaN_eq_false_iff] at hx
  rw [signedNumber_eq]
  split_ifs <;> omega

theorem isInfinite_packed (s : Sign) : IsInfinite s (packed (.infinity s)) :=
  magnitudeBits_packedInfinity rfl

theorem IsInfinite.unpack (h : IsInfinite s x) : x.toModel.unpack = .infinity s := by
  rw [unpack_of_infinite h.1, h.2]

theorem IsInfinite.isNaN (h : IsInfinite s x) : x.isNaN = false :=
  isNaN_eq_false_iff.2 h.1.le

theorem IsInfinite.value_pos (h : IsInfinite s x) (h0 : 0 ≤ value x) : 0 < value x := by
  refine h0.lt_of_ne' fun hzero => ?_
  have hmag := h.1
  rw [value_eq_zero.1 hzero] at hmag
  unfold infinityBits at hmag
  omega

theorem IsInfinite.signedNumber_eq (hx : IsInfinite s x) (hy : IsInfinite s y) :
    signedNumber x = signedNumber y := by
  unfold signedNumber
  rw [hx.1, hx.2, hy.1, hy.2]

/-- No number lies beyond an infinity. -/
theorem IsInfinite.value_bounds (hx : x.isNaN = false) (hy : IsInfinite s y) :
    (s = .positive → value x ≤ value y) ∧ (s = .negative → value y ≤ value x) := by
  have hbounds := signedNumber_bounds hx
  rw [value_le_value, value_le_value]
  unfold signedNumber at *
  rw [hy.1, hy.2]
  constructor
  · rintro rfl
    exact hbounds.2
  · rintro rfl
    exact hbounds.1

/-- A number is finite or one of the two infinities. -/
theorem isFinite_or_isInfinite (hx : x.isNaN = false) :
    x.isFinite = true ∨ IsInfinite (sign x) x := by
  rw [isNaN_eq_false_iff] at hx
  rw [isFinite_iff]
  rcases hx.lt_or_eq with h | h
  · exact .inl h
  · exact .inr ⟨h, rfl⟩

/-- A count too large for the format. -/
theorem infinite_ofNat {n : ℕ} (h : ¬(ofNat n).isFinite = true) :
    IsInfinite .positive (ofNat n) := by
  have hinf := (isFinite_or_isInfinite (isNaN_ofNat n)).resolve_left h
  rwa [sign_ofNat] at hinf

/-! ## What is no number -/

theorem isNaN_packed : (packed .notANumber).isNaN = true := by decide

theorem unpack_of_isNaN (hx : x.isNaN = true) : x.toModel.unpack = .notANumber := by
  rw [isNaN_iff] at hx
  have hu := unpacks x
  generalize magnitudeBits x = k, x.toModel.unpack = u at *
  cases hu with
  | zero => exact absurd hx (Nat.not_lt_zero _)
  | finite _ _ _ hmax => omega
  | infinity => omega
  | notANumber => rfl

theorem isNaN_add_right (hy : y.isNaN = true) : (x + y).isNaN = true := by
  show (packed (UnpackedFloat.add Format.binary64 x.toModel.unpack y.toModel.unpack)).isNaN = true
  rw [unpack_of_isNaN hy]
  cases x.toModel.unpack <;> exact isNaN_packed

theorem isNaN_mul_left (hx : x.isNaN = true) : (x * y).isNaN = true := by
  show (packed (UnpackedFloat.mul Format.binary64 x.toModel.unpack y.toModel.unpack)).isNaN = true
  rw [unpack_of_isNaN hx]
  exact isNaN_packed

/-- What compares is a number. -/
theorem isNaN_of_le (h : x ≤ y) : x.isNaN = false ∧ y.isNaN = false := by
  have hle : decide (x.toModel.unpack.le y.toModel.unpack = true) = true := h
  rw [decide_eq_true_eq] at hle
  constructor
  · by_contra hx
    rw [unpack_of_isNaN (Bool.eq_true_of_not_eq_false hx)] at hle
    cases hle
  · by_contra hy
    rw [unpack_of_isNaN (Bool.eq_true_of_not_eq_false hy)] at hle
    cases hu : x.toModel.unpack <;> rw [hu] at hle <;> cases hle

theorem le_of_le_of_le {z : Float} (hxy : x ≤ y) (hyz : y ≤ z) : x ≤ z := by
  obtain ⟨hx, hy⟩ := isNaN_of_le hxy
  have hz := (isNaN_of_le hyz).2
  rw [le_iff_value hx hy] at hxy
  rw [le_iff_value hy hz] at hyz
  exact (le_iff_value hx hz).2 (hxy.trans hyz)

theorem le_self (hx : x.isNaN = false) : x ≤ x := (le_iff hx hx).2 le_rfl

/-! ## Infinite operands -/

/-- A difference from a finite double. -/
theorem infinite_sub (hx : IsInfinite s x) (hy : y.isFinite = true) : IsInfinite s (x - y) := by
  show IsInfinite s (packed
    (UnpackedFloat.sub Format.binary64 x.toModel.unpack y.toModel.unpack))
  rw [hx.unpack]
  rcases unpack_of_isFinite hy with ⟨-, hu⟩ | ⟨e, n, hpos, -, -, -, hu⟩
  · rw [hu]
    exact isInfinite_packed s
  · rw [hu]
    exact isInfinite_packed s

/-- A difference of a finite double and an infinity. -/
theorem finite_sub_infinite (hx : x.isFinite = true) (hy : IsInfinite s y) :
    IsInfinite (-s) (x - y) := by
  show IsInfinite (-s) (packed
    (UnpackedFloat.sub Format.binary64 x.toModel.unpack y.toModel.unpack))
  rw [hy.unpack]
  rcases unpack_of_isFinite hx with ⟨-, hu⟩ | ⟨e, n, hpos, -, -, -, hu⟩
  · rw [hu]
    exact isInfinite_packed (-s)
  · rw [hu]
    exact isInfinite_packed (-s)

/-- A difference from an infinity, which is no number where equal infinities cancel. -/
theorem sub_infinite (hx : x.isNaN = false) (hy : IsInfinite s y) :
    (x - y).isNaN = true ∨ IsInfinite (-s) (x - y) := by
  rcases isFinite_or_isInfinite hx with hfin | hinf
  · exact .inr (finite_sub_infinite hfin hy)
  · show (packed (UnpackedFloat.sub Format.binary64 x.toModel.unpack y.toModel.unpack)).isNaN =
      true ∨ IsInfinite (-s) (packed
        (UnpackedFloat.sub Format.binary64 x.toModel.unpack y.toModel.unpack))
    rw [hy.unpack, hinf.unpack]
    cases sign x <;> cases s
    · exact .inl isNaN_packed
    · exact .inr (isInfinite_packed _)
    · exact .inr (isInfinite_packed _)
    · exact .inl isNaN_packed

/-- A product with zero is no number. -/
theorem isNaN_infinite_mul (hx : IsInfinite s x) (hy : y.isFinite = true) (hzero : value y = 0) :
    (x * y).isNaN = true := by
  have hmag := value_eq_zero.1 hzero
  show (packed (UnpackedFloat.mul Format.binary64 x.toModel.unpack y.toModel.unpack)).isNaN = true
  rw [hx.unpack]
  rcases unpack_of_isFinite hy with ⟨-, hu⟩ | ⟨e, n, hn, -, -, hk, -⟩
  · rw [hu]
    exact isNaN_packed
  · have := place_pos (e := e) hn
    omega

/-- A product with a positive finite double. -/
theorem infinite_mul (hx : IsInfinite s x) (hy : y.isFinite = true) (hpos : 0 < value y) :
    IsInfinite s (x * y) := by
  have hmag : 0 < magnitudeBits y :=
    Nat.pos_of_ne_zero fun h => hpos.ne' (value_eq_zero.2 h)
  rw [mul_of_infinite hx.1 hy hmag, hx.2, sign_of_value_pos hpos]
  cases s
  · exact isInfinite_packed _
  · exact isInfinite_packed _

/-- A product of a positive finite double and an infinity. -/
theorem mul_infinite (hx : x.isFinite = true) (hpos : 0 < value x) (hy : IsInfinite s y) :
    x * y = packed (.infinity s) := by
  show packed (UnpackedFloat.mul Format.binary64 x.toModel.unpack y.toModel.unpack) = _
  have hsign := sign_of_value_pos hpos
  rw [hy.unpack]
  rcases unpack_of_isFinite hx with ⟨hk, -⟩ | ⟨e, n, hn, -, -, -, hu⟩
  · exact absurd (value_eq_zero.2 hk) hpos.ne'
  · rw [hu, hsign]
    cases s
    · rfl
    · rfl

/-- A sum with a finite double. -/
theorem add_infinite (hx : x.isFinite = true) (hy : IsInfinite s y) : IsInfinite s (x + y) := by
  show IsInfinite s (packed
    (UnpackedFloat.add Format.binary64 x.toModel.unpack y.toModel.unpack))
  rw [hy.unpack]
  rcases unpack_of_isFinite hx with ⟨-, hu⟩ | ⟨e, n, hpos, -, -, -, hu⟩
  · rw [hu]
    exact isInfinite_packed s
  · rw [hu]
    exact isInfinite_packed s

theorem infinite_add (hx : IsInfinite s x) (hy : y.isFinite = true) : IsInfinite s (x + y) := by
  show IsInfinite s (packed
    (UnpackedFloat.add Format.binary64 x.toModel.unpack y.toModel.unpack))
  rw [hx.unpack]
  rcases unpack_of_isFinite hy with ⟨-, hu⟩ | ⟨e, n, hpos, -, -, -, hu⟩
  · rw [hu]
    exact isInfinite_packed s
  · rw [hu]
    exact isInfinite_packed s

/-- A quotient by a positive finite double. -/
theorem infinite_div (hx : IsInfinite s x) (hy : y.isFinite = true) (hpos : 0 < value y) :
    IsInfinite s (x / y) := by
  show IsInfinite s (packed
    (UnpackedFloat.div Format.binary64 x.toModel.unpack y.toModel.unpack))
  have hsign := sign_of_value_pos hpos
  rw [hx.unpack]
  rcases unpack_of_isFinite hy with ⟨hk, -⟩ | ⟨e, n, hn, -, -, -, hu⟩
  · exact absurd (value_eq_zero.2 hk) hpos.ne'
  · rw [hu, hsign]
    cases s
    · exact isInfinite_packed _
    · exact isInfinite_packed _

/-- Opposite infinities cancel. -/
theorem isNaN_infinite_add (hx : IsInfinite s x) (hy : IsInfinite (-s) y) :
    (x + y).isNaN = true := by
  show (packed (UnpackedFloat.add Format.binary64 x.toModel.unpack y.toModel.unpack)).isNaN = true
  rw [hx.unpack, hy.unpack]
  cases s <;> exact isNaN_packed

/-! ## Sums of finite doubles -/

/-- A sum of finite doubles is a number, since infinities do not meet in it. -/
theorem isNaN_sum {xs : List Float} (h : ∀ y ∈ xs, y.isFinite = true) :
    (sum xs).isNaN = false := by
  have hfold : ∀ acc : Float, acc.isNaN = false → (xs.foldl (· + ·) acc).isNaN = false := by
    induction xs with
    | nil => exact fun acc hacc => hacc
    | cons y rest ih =>
      intro acc hacc
      rw [List.forall_mem_cons] at h
      refine ih h.2 (acc + y) ?_
      rcases isFinite_or_isInfinite hacc with hfin | hinf
      · exact (rounds_add hfin h.1).isNaN
      · exact (infinite_add hinf h.1).isNaN
  exact hfold _ rfl

/-- So are its quotients by positive doubles, be the sum infinite. -/
theorem isNaN_div_of_pos (hx : x.isNaN = false) (hy : y.isFinite = true) (hpos : 0 < value y) :
    (x / y).isNaN = false := by
  rcases isFinite_or_isInfinite hx with hfin | hinf
  · exact isNaN_div hfin hy (Nat.pos_of_ne_zero fun h => hpos.ne' (value_eq_zero.2 h))
  · exact (infinite_div hinf hy hpos).isNaN

/-! ## Distances -/

theorem zero_le_iff_value : 0.0 ≤ x ↔ x.isNaN = false ∧ 0 ≤ value x := by
  constructor
  · intro h
    have hx := (isNaN_of_le h).2
    rw [le_iff_value rfl hx, value_zero] at h
    exact ⟨hx, h⟩
  · rintro ⟨hx, h⟩
    rwa [le_iff_value rfl hx, value_zero]

/-- Distances are not negative, though they may be infinite. -/
theorem sub_nonneg_of_le (hx : x.isFinite = true) (hy : y.isFinite = true) (h : x ≤ y) :
    0.0 ≤ y - x := by
  rw [le_iff_value (isNaN_of_isFinite hx) (isNaN_of_isFinite hy)] at h
  have hround := rounds_sub hy hx
  exact zero_le_iff_value.2 ⟨hround.isNaN, hround.value_nonneg (sub_nonneg.2 h)⟩

/-- Nor are positive multiples of them. -/
theorem mul_nonneg_of_pos (hx : x.isFinite = true) (hpos : 0 < value x) (hy : 0.0 ≤ y) :
    0.0 ≤ x * y := by
  obtain ⟨hnum, h0⟩ := zero_le_iff_value.1 hy
  rcases isFinite_or_isInfinite hnum with hfin | hinf
  · have hround := rounds_mul hx hfin
    exact zero_le_iff_value.2 ⟨hround.isNaN, hround.value_nonneg (mul_nonneg hpos.le h0)⟩
  · rw [sign_of_value_pos (hinf.value_pos h0)] at hinf
    rw [mul_infinite hx hpos hinf]
    decide

/-- A distance below a finite double. -/
theorem sub_le_self_of_nonneg (hx : x.isFinite = true) (hy : 0.0 ≤ y) : x - y ≤ x := by
  obtain ⟨hnum, h0⟩ := zero_le_iff_value.1 hy
  have hxnum := isNaN_of_isFinite hx
  rcases isFinite_or_isInfinite hnum with hfin | hinf
  · have hround := rounds_sub hx hfin
    rw [le_iff_value hround.isNaN hxnum]
    exact hround.value_le hxnum (sub_le_self _ h0)
  · rw [sign_of_value_pos (hinf.value_pos h0)] at hinf
    have hbelow := finite_sub_infinite hx hinf
    rw [le_iff_value hbelow.isNaN hxnum]
    exact (hbelow.value_bounds hxnum).2 rfl

/-- A distance above a finite double. -/
theorem le_add_self_of_nonneg (hx : x.isFinite = true) (hy : 0.0 ≤ y) : x ≤ x + y := by
  obtain ⟨hnum, h0⟩ := zero_le_iff_value.1 hy
  have hxnum := isNaN_of_isFinite hx
  rcases isFinite_or_isInfinite hnum with hfin | hinf
  · have hround := rounds_add hx hfin
    rw [le_iff_value hxnum hround.isNaN]
    exact hround.le_value hxnum (le_add_of_nonneg_right h0)
  · rw [sign_of_value_pos (hinf.value_pos h0)] at hinf
    have habove := add_infinite hx hinf
    rw [le_iff_value hxnum habove.isNaN]
    exact (habove.value_bounds hxnum).1 rfl

end FigureData.Binary64
