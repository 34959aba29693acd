/-
  Quantiles have the right rank in the sample.

  Sorting rearranges a sample, so values are counted in the sorted list: everything up to the rank
  below a position is at most the estimate, and everything from the rank above it on is at least
  the estimate.

  Proved:
  * `Brackets.countP_le`, `Brackets.le_countP`: how many values stand on either side of an
    estimate.
  * `Brackets.mem`: an estimate at a rank is a value of the list.
  * `Brackets.standsAt`: so an estimate stands where its position says.
  * `summarize_ranks`: every sample of numbers has a summary of numbers, and its quantiles stand
    in the sample at their positions.
-/
import FigureData.Proofs.Statistics.QuantileOrder

namespace FigureData

open Binary64

/-! ## Counting by ranks -/

section Count

variable {α : Type} {l : List α} {P : α → Bool} {i : ℕ}

/-- What holds up to a rank holds of one value more than the rank says. -/
theorem succ_le_countP (hi : i < l.length) (h : ∀ j x, j ≤ i → l[j]? = some x → P x = true) :
    i + 1 ≤ l.countP P := by
  have hall : ∀ x ∈ l.take (i + 1), P x = true := by
    intro x hx
    obtain ⟨j, hj, rfl⟩ := List.mem_take_iff_getElem.1 hx
    exact h j _ (by omega) (List.getElem?_eq_getElem (by omega))
  calc i + 1 = (l.take (i + 1)).length := by rw [List.length_take]; omega
    _ = (l.take (i + 1)).countP P := (List.countP_eq_length.2 hall).symm
    _ ≤ l.countP P := (List.take_sublist _ _).countP_le

/-- What holds from a rank on holds of all values but as many as the rank says. -/
theorem length_le_countP_add (h : ∀ j x, i ≤ j → l[j]? = some x → P x = true) :
    l.length ≤ l.countP P + i := by
  have hall : ∀ x ∈ l.drop i, P x = true := by
    intro x hx
    obtain ⟨j, hj, rfl⟩ := List.mem_drop_iff_getElem.1 hx
    exact h (i + j) _ (by omega) (List.getElem?_eq_getElem (by omega))
  have hle : l.length - i ≤ l.countP P := by
    calc l.length - i = (l.drop i).length := by rw [List.length_drop]
      _ = (l.drop i).countP P := (List.countP_eq_length.2 hall).symm
      _ ≤ l.countP P := (List.drop_sublist _ _).countP_le
  omega

end Count

/-! ## Estimates among the values -/

/-- The estimate `x` stands among the values where the position says. -/
structure StandsAt (values : List Float) (pos x : Float) : Prop where
  finite : pos.isFinite = true
  below : ⌊value pos⌋₊ + 1 ≤ values.countP fun v => decide (v ≤ x)
  above : values.length ≤ (values.countP fun v => decide (x ≤ v)) + ⌈value pos⌉₊
  on_rank : (∃ k : ℤ, value pos = k) → x ∈ values
  between : ∃ least ∈ values, ∃ greatest ∈ values,
    (∀ v ∈ values, least ≤ v ∧ v ≤ greatest) ∧ least ≤ x ∧ x ≤ greatest

theorem StandsAt.of_perm {values values' : List Float} {pos x : Float} (h : StandsAt values pos x)
    (hperm : values.Perm values') : StandsAt values' pos x where
  finite := h.finite
  below := by
    rw [← hperm.countP_eq]
    exact h.below
  above := by
    rw [← hperm.countP_eq, ← hperm.length_eq]
    exact h.above
  on_rank hrank := hperm.mem_iff.1 (h.on_rank hrank)
  between := by
    obtain ⟨least, hleast, greatest, hgreatest, hall, hbounds⟩ := h.between
    refine ⟨least, hperm.mem_iff.1 hleast, greatest, hperm.mem_iff.1 hgreatest, ?_, hbounds⟩
    intro v hv
    exact hall v (hperm.mem_iff.2 hv)

section Ascending

variable {sorted : List Float} (hnum : ∀ x ∈ sorted, x.isNaN = false)
  (hasc : sorted.Pairwise (· ≤ ·)) {n : ℕ} {pos low high x : Float}
  (h : Brackets sorted pos low high x)
include h

/-- An estimate at a rank is a value of the list. -/
theorem Brackets.mem (hrank : value pos = ⌊value pos⌋₊) : x ∈ sorted := by
  rw [h.on_rank hrank]
  exact List.mem_of_getElem? h.low_eq

include hnum hasc

theorem Brackets.countP_le : ⌊value pos⌋₊ + 1 ≤ sorted.countP fun v => decide (v ≤ x) := by
  obtain ⟨-, hlow, -⟩ := h.between hnum hasc
  obtain ⟨hrank, -⟩ := List.getElem?_eq_some_iff.1 h.low_eq
  refine succ_le_countP hrank ?_
  intro j v hj hv
  exact decide_eq_true (le_of_le_of_le (le_of_rank_le hnum hasc hj hv h.low_eq) hlow)

theorem Brackets.le_countP :
    sorted.length ≤ (sorted.countP fun v => decide (x ≤ v)) + ⌈value pos⌉₊ := by
  obtain ⟨-, -, hhigh⟩ := h.between hnum hasc
  refine length_le_countP_add ?_
  intro j v hj hv
  exact decide_eq_true (le_of_le_of_le hhigh (le_of_rank_le hnum hasc hj h.high_eq hv))

/-- An estimate lies between the first value and the last. -/
theorem Brackets.exists_bounds : ∃ least ∈ sorted, ∃ greatest ∈ sorted,
    (∀ v ∈ sorted, least ≤ v ∧ v ≤ greatest) ∧ least ≤ x ∧ x ≤ greatest := by
  obtain ⟨-, hlow, hhigh⟩ := h.between hnum hasc
  obtain ⟨hrank, -⟩ := List.getElem?_eq_some_iff.1 h.low_eq
  obtain ⟨hrank', -⟩ := List.getElem?_eq_some_iff.1 h.high_eq
  have hfirst := List.getElem?_eq_getElem (by omega : 0 < sorted.length)
  have hlast := List.getElem?_eq_getElem (by omega : sorted.length - 1 < sorted.length)
  refine ⟨_, List.mem_of_getElem? hfirst, _, List.mem_of_getElem? hlast, ?_, ?_, ?_⟩
  · intro v hv
    obtain ⟨j, hj, rfl⟩ := List.mem_iff_getElem.1 hv
    have hvalue := List.getElem?_eq_getElem hj
    exact ⟨le_of_rank_le hnum hasc (Nat.zero_le j) hfirst hvalue,
      le_of_rank_le hnum hasc (by omega) hvalue hlast⟩
  · exact le_of_le_of_le (le_of_rank_le hnum hasc (Nat.zero_le _) hfirst h.low_eq) hlow
  · exact le_of_le_of_le hhigh (le_of_rank_le hnum hasc (by omega) h.high_eq hlast)

/-- An estimate stands among the values where its position says. -/
theorem Brackets.standsAt (hpos : IsPosition n pos) : StandsAt sorted pos x where
  finite := hpos.finite
  below := h.countP_le hnum hasc
  above := h.le_countP hnum hasc
  on_rank := by
    rintro ⟨k, hk⟩
    refine h.mem ?_
    have h0 := hpos.nonneg
    rw [hk] at h0 ⊢
    lift k to ℕ using by exact_mod_cast h0
    rw [Int.cast_natCast, Nat.floor_natCast]
  between := h.exists_bounds hnum hasc

end Ascending

/-! ## Summaries -/

/-- Every number lies between the infinities. -/
theorem within_of_number {x : Float} (hx : x.isNaN = false) :
    Within (-(infinityBits : ℤ)) infinityBits x :=
  ⟨hx, signedNumber_bounds hx⟩

/-- The summary of numbers holds numbers. -/
theorem Summary.isNaN_ofSorted {sorted values : List Float} {m : Summary}
    (hnum : ∀ x ∈ sorted, x.isNaN = false) (hne : sorted ≠ [])
    (h : ofSorted sorted values = .ok m) :
    (∀ p, (m.quantile p).isNaN = false) ∧ m.whiskerLow.isNaN = false ∧
      m.whiskerHigh.isNaN = false := by
  have hpercentile : ∀ q x, percentile? sorted q = some x → x.isNaN = false := by
    intro q x hx
    exact (percentile?_bounds (fun y hy => within_of_number (hnum y hy)) hne hx).1
  exact forall_ofSorted hnum hpercentile h

/-- Every sample of numbers has a summary of numbers, and its quantiles stand in the sample at
their positions. -/
theorem summarize_ranks {s : Sample} (hne : s.values ≠ []) (hlength : s.length ≤ 2 ^ 53)
    (hnum : ∀ x ∈ s.values, x.isNaN = false) :
    ∃ m, s.summarize = .ok m ∧ m.isUndefined = false ∧ (∀ p, (m.quantile p).isNaN = false) ∧
      m.whiskerLow.isNaN = false ∧ m.whiskerHigh.isNaN = false ∧
      ∀ p, StandsAt s.values (position p.value s.length) (m.quantile p) := by
  have hcomplete := Sample.isComplete_iff.2 ⟨hne, hnum⟩
  have hnum' := Sample.isNaN_of_mem_sort hcomplete
  obtain ⟨m, hm, -⟩ := Sample.summarize_ok hcomplete
  have hsorted := hm
  rw [Sample.summarize_of_isComplete hcomplete] at hsorted
  obtain ⟨hquantiles, hlow, hhigh⟩ := Summary.isNaN_ofSorted hnum' (sort_ne_nil hne) hsorted
  refine ⟨m, hm, hquantiles .p50, hquantiles, hlow, hhigh, ?_⟩
  intro p
  have hpos := isPosition hlength p.value_bounds.1 p.value_bounds.2
  obtain ⟨low, high, x, hx, hbrackets⟩ :=
    hpos.exists_percentile? hlength (sort_ne_nil hne) (length_sort s.values) rfl
  obtain rfl := Option.some.inj (((Summary.numbers_ofSorted hsorted).1 p).symm.trans hx)
  exact (hbrackets.standsAt hnum' (Sample.pairwise_sort hcomplete) hpos).of_perm
    (sort_perm s.values)

/-- Infinite measurements and equal ones have their ranks as well. -/
theorem summarize_ranks_of_infinities :
    let s : Sample := ⟨[1.0 / 0.0, 2.0, -1.0 / 0.0, 2.0]⟩
    ∃ m, s.summarize = .ok m ∧ m.isUndefined = false ∧ (∀ p, (m.quantile p).isNaN = false) ∧
      m.whiskerLow.isNaN = false ∧ m.whiskerHigh.isNaN = false ∧
      ∀ p, StandsAt s.values (position p.value s.length) (m.quantile p) :=
  summarize_ranks (by decide) (by decide) (by decide)

end FigureData
