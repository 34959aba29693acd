/-
  Percentiles of complete samples.

  The ranks on either side of a position are computed with rounded arithmetic: the
  length of the sample is rounded, and so is the product with the probability.  Up to
  2 ^ 53 values the ranks are floor and ceiling of the position.  Above, the probabilities
  are so far below one that the two rounding errors cannot reach the last rank.

  Proved:
  * `rankBelow_lt`, `rankAbove_lt`: the ranks of a position lie in the sample, for every
    length and every probability of the summary.
  * `percentile?_isSome`: so a percentile of a sample that is not empty exists.
  * `percentile?_bounds`: it lies between any two bounds of the sample.
  * `Sample.summarize_ok`: a complete sample has a summary.
-/
import FigureData.Proofs.Statistics.Ranks
import FigureData.Statistics.Summary

namespace FigureData

open Binary64

/-! ## Ranks -/

theorem Probability.value_bounds (p : Probability) : 0.0 ≤ p.value ∧ p.value ≤ 1.0 := by
  cases p <;> decide

theorem Probability.value_bits (p : Probability) :
    magnitudeBits p.value ≤ magnitudeBits 0.95 ∧ p.value.isFinite = true := by
  cases p <;> decide

theorem Probability.value_pos (p : Probability) : 0 < Binary64.value p.value := by
  refine (value_nonneg_of_le p.value_bounds.1).lt_of_ne' (mt value_eq_zero.1 ?_)
  cases p <;> decide

/-- The probabilities stay well below one. -/
theorem Probability.absValue_le (p : Probability) : absValue p.value ≤ 96 / 100 := by
  have hbits : magnitudeBits 0.95 = 4606732058837280358 := by decide
  refine (scale_le_scale.2 p.value_bits.1).trans ?_
  rw [hbits]
  norm_num [scale]

section Ranks

variable (p : Probability) (n : ℕ)

theorem isRounded_position (hfin : (ofNat (n - 1)).isFinite = true) :
    IsRounded (position p.value n) (sign p.value * sign (ofNat (n - 1)))
      (absValue p.value * absValue (ofNat (n - 1))) :=
  isRounded_mul p.value_bits.2 hfin

/-- A position does not lie beyond the last rank, both rounded. -/
theorem magnitudeBits_position_le (hfin : (ofNat (n - 1)).isFinite = true) :
    magnitudeBits (position p.value n) ≤ magnitudeBits (ofNat (n - 1)) := by
  refine (isRounded_position p n hfin).magnitudeBits_le ?_
  have hq := p.absValue_le
  have := mul_le_mul_of_nonneg_right (hq.trans (by norm_num : (96 / 100 : ℚ) ≤ 1))
    (scale_nonneg (magnitudeBits (ofNat (n - 1))))
  rwa [one_mul] at this

theorem isFinite_position (hfin : (ofNat (n - 1)).isFinite = true) :
    (position p.value n).isFinite = true := by
  rw [isFinite_iff] at *
  exact (magnitudeBits_position_le p n (isFinite_iff.2 hfin)).trans_lt hfin

theorem rankBelow_le_absValue (hfin : (ofNat (n - 1)).isFinite = true) :
    (rankBelow (position p.value n) : ℚ) ≤ absValue (position p.value n) :=
  toUInt64_le (isFinite_position p n hfin)

/-- From 2 ^ 53 on, the two roundings together err by less than the probabilities stay
below one. -/
theorem rankBelow_of_large (hn : 2 ^ 53 ≤ n - 1) : rankBelow (position p.value n) < n - 1 := by
  by_cases hhuge : 2 ^ 64 ≤ n - 1
  · exact lt_of_lt_of_le (position p.value n).toUInt64.toNat_lt hhuge
  obtain ⟨m, hm⟩ : ∃ m, m = n - 1 := ⟨_, rfl⟩
  rw [← hm] at hn hhuge
  have hm' : (2 : ℚ) ^ 53 ≤ m := by exact_mod_cast hn
  have hround := isRounded_ofNat m
  have htop : (m : ℚ) ≤ scale (1087 * 2 ^ 52) := by
    have : (m : ℚ) ≤ 2 ^ 64 := by exact_mod_cast (not_le.1 hhuge).le
    norm_num [scale] at this ⊢
    exact this
  have hfin : (ofNat m).isFinite = true := hround.isFinite htop (by norm_num [infinityBits])
  have hmag := hround.magnitudeBits_le htop
  obtain ⟨k, hk, hk', -⟩ := hround
  have hkone : oneBits ≤ k := hk.le_of_scale_le (by rw [scale_oneBits]; linarith)
  have hkval := hk.scale_le (by unfold oneBits at hkone; omega)
  have hkeq : magnitudeBits (ofNat m) = k := by
    rw [isFinite_iff] at hfin
    omega
  rw [hm] at hfin hkeq
  have hbelow := rankBelow_le_absValue p n hfin
  rw [← hm] at hkeq ⊢
  obtain ⟨j, hj, hj', -⟩ := isRounded_position p n (hm ▸ hfin)
  have hjeq : magnitudeBits (position p.value n) ≤ j := by omega
  have hq := p.absValue_le
  have hval : absValue (position p.value n) ≤ scale j := scale_le_scale.2 hjeq
  have hstep : scale j < m := by
    by_cases hsmall : j ≤ oneBits
    · have := scale_le_scale.2 hsmall
      rw [scale_oneBits] at this
      linarith
    · have hjval := hj.scale_le (by unfold oneBits at hsmall; omega)
      have hofNat : absValue (ofNat (n - 1)) = scale k := by rw [← hm]; exact congrArg scale hkeq
      rw [hofNat] at hjval
      calc scale j ≤ absValue p.value * scale k * (1 + 1 / 2 ^ 53) := hjval
        _ ≤ 96 / 100 * (m * (1 + 1 / 2 ^ 53)) * (1 + 1 / 2 ^ 53) := by
          gcongr
          exact scale_nonneg k
        _ < m := by linarith
  exact_mod_cast (hbelow.trans hval).trans_lt hstep

variable {n}

/-- The ranks of a position lie in the sample. -/
theorem rankBelow_lt (hn : 0 < n) : rankBelow (position p.value n) < n := by
  by_cases hsmall : n ≤ 2 ^ 53
  · have hpos := isPosition hsmall p.value_bounds.1 p.value_bounds.2
    have hfloor := hpos.floor_le
    rw [hpos.rankBelow_eq hsmall]
    omega
  · have := rankBelow_of_large p n (by omega)
    omega

theorem rankAbove_lt (hn : 0 < n) : rankAbove (position p.value n) < n := by
  by_cases hsmall : n ≤ 2 ^ 53
  · have hpos := isPosition hsmall p.value_bounds.1 p.value_bounds.2
    have hceil := hpos.ceil_le
    rw [hpos.rankAbove_eq hsmall]
    omega
  · have hlarge := rankBelow_of_large p n (by omega)
    unfold rankAbove
    simp only
    split_ifs <;> omega

end Ranks

/-! ## Percentiles -/

/-- A percentile of a sample that is not empty exists. -/
theorem percentile?_isSome {sorted : List Float} (hne : sorted ≠ []) (p : Probability) :
    ∃ x, percentile? sorted p.value = some x := by
  have hn : 0 < sorted.length := List.length_pos_iff.2 hne
  have hbelow := rankBelow_lt p hn
  have habove := rankAbove_lt p hn
  unfold percentile?
  rw [if_neg (by simpa using hne)]
  simp only [List.getElem?_eq_getElem hbelow, List.getElem?_eq_getElem habove]
  split <;> exact ⟨_, rfl⟩

section Bounds

variable {a b : ℤ}

/-- A percentile lies between any two bounds of the sample. -/
theorem percentile?_bounds {sorted : List Float} (hall : ∀ x ∈ sorted, Within a b x)
    (hne : sorted ≠ []) {q x : Float} (h : percentile? sorted q = some x) : Within a b x := by
  unfold percentile? at h
  rw [if_neg (by simpa using hne)] at h
  simp only at h
  split at h
  · exact hall x (List.mem_of_getElem? h)
  · split at h
    next low high hlow hhigh =>
      rw [← Option.some.inj h]
      exact within_interpolate (hall low (List.mem_of_getElem? hlow))
        (hall high (List.mem_of_getElem? hhigh)) _
    next => exact absurd h (by simp)

end Bounds

/-! ## Summaries -/

theorem Summary.estimate_ok {sorted : List Float} (hne : sorted ≠ []) (p : Probability) :
    ∃ x, Summary.estimate sorted p = .ok x ∧ percentile? sorted p.value = some x := by
  obtain ⟨x, hx⟩ := percentile?_isSome hne p
  refine ⟨x, ?_, hx⟩
  unfold Summary.estimate
  rw [hx]

theorem Summary.ofSorted_ok {sorted : List Float} (hne : sorted ≠ []) (values : List Float) :
    ∃ m, Summary.ofSorted sorted values = .ok m ∧ percentile? sorted 0.5 = some m.median := by
  obtain ⟨p25, h25, -⟩ := Summary.estimate_ok hne .p25
  obtain ⟨p75, h75, -⟩ := Summary.estimate_ok hne .p75
  obtain ⟨p05, h05, -⟩ := Summary.estimate_ok hne .p05
  obtain ⟨median, h50, hmedian⟩ := Summary.estimate_ok hne .p50
  obtain ⟨p95, h95, -⟩ := Summary.estimate_ok hne .p95
  unfold Summary.ofSorted
  rw [h25, h75, h05, h50, h95]
  exact ⟨_, rfl, hmedian⟩

theorem sort_ne_nil {xs : List Float} (h : xs ≠ []) : sort xs ≠ [] := by
  rw [← List.length_pos_iff, length_sort]
  exact List.length_pos_iff.2 h

/-- The summary of a sample that is not empty and has no missing measurement. -/
theorem Sample.summarize_of_isComplete {s : Sample} (h : s.isComplete = true) :
    s.summarize = Summary.ofSorted (sort s.values) s.values := by
  unfold Sample.isComplete at h
  rw [Bool.and_eq_true, Bool.not_eq_true', Bool.not_eq_true'] at h
  unfold Sample.summarize
  rw [if_neg (by rw [h.1]; decide), if_neg (by rw [h.2]; decide)]

/-- Only complete samples have a summary. -/
theorem Sample.isComplete_of_summarize {s : Sample} {m : Summary} (h : s.summarize = .ok m) :
    s.isComplete = true := by
  unfold Sample.summarize at h
  split_ifs at h with hempty hmissing
  unfold Sample.isComplete
  rw [Bool.eq_false_iff.2 hempty, Bool.eq_false_iff.2 hmissing]
  rfl

/-- A complete sample has a summary, and its median is the middle percentile. -/
theorem Sample.summarize_ok {s : Sample} (h : s.isComplete = true) :
    ∃ m, s.summarize = .ok m ∧ percentile? (sort s.values) 0.5 = some m.median := by
  rw [Sample.summarize_of_isComplete h]
  exact Summary.ofSorted_ok (sort_ne_nil (Sample.isComplete_iff.1 h).1) s.values

end FigureData
