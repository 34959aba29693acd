/-
  A summary forgets the order of the measurements.

  Quantiles and whiskers are read off the sorted measurements, and the total order leaves only
  one way to sort them, also where zeros of both signs or equal measurements occur.  The order
  of the sample decides nothing but the order of the outliers.

  Proved:
  * `Summary.ofSorted_reordered`: what a summary is when only the sample order changes.
  * `summarize_of_perm`: samples that are permutations of each other fail alike or have the
    same summary up to the order of its outliers.
-/
import FigureData.Proofs.Statistics.Whiskers

namespace FigureData

open Binary64 Outcome

/-- `m` and `n` summarise the same measurements, which stand in the order `values` for `m` and
in the order `others` for `n`. -/
structure Summary.Reordered (m n : Summary) (values others : List Float) : Prop where
  /-- Quantiles and whiskers are the same doubles. -/
  numbers : n = { m with outliers := n.outliers }
  outliers_perm : m.outliers.Perm n.outliers
  /-- Outliers stand in the order of their own sample. -/
  outliers_sublist : m.outliers.Sublist values ∧ n.outliers.Sublist others

namespace Summary

/-- The measurements in sample order only decide the outliers. -/
theorem ofSorted_reordered (sorted values others : List Float) :
    ofSorted sorted others =
      (ofSorted sorted values).map fun m => { m with outliers := outside others m.fences } := by
  unfold ofSorted
  apply bind_eq_map_bind
  intro p25
  apply bind_eq_map_bind
  intro p75
  apply bind_eq_map_bind
  intro p05
  apply bind_eq_map_bind
  intro median
  apply bind_eq_map_bind
  intro p95
  rfl

theorem reordered_outside {m : Summary} {values others : List Float} (h : values.Perm others)
    (hm : m.outliers = outside values m.fences) :
    m.Reordered { m with outliers := outside others m.fences } values others := by
  refine ⟨rfl, ?_, ?_⟩
  · rw [hm]
    exact h.filter _
  · rw [hm]
    exact ⟨List.filter_sublist, List.filter_sublist⟩

end Summary

/-- Samples that are permutations of each other fail with the same fault or have the same
summary, up to the order of its outliers. -/
theorem summarize_of_perm {s t : Sample} (h : s.values.Perm t.values) :
    (∃ fault, s.summarize = .error fault ∧ t.summarize = .error fault) ∨
      ∃ m n, s.summarize = .ok m ∧ t.summarize = .ok n ∧ m.Reordered n s.values t.values := by
  have hempty : t.isEmpty = s.isEmpty := h.symm.isEmpty_eq
  have hmissing : t.hasMissing = s.hasMissing := h.symm.any_eq
  have hlength : t.length = s.length := h.length_eq.symm
  have hsorted := sort_congr h
  unfold Sample.summarize
  rw [hempty, hmissing, hlength, ← hsorted,
    Summary.ofSorted_reordered (sort s.values) s.values t.values]
  split_ifs
  · exact .inl ⟨_, rfl, rfl⟩
  · exact .inl ⟨_, rfl, rfl⟩
  · cases hm : Summary.ofSorted (sort s.values) s.values with
    | error fault => exact .inl ⟨fault, rfl, rfl⟩
    | ok m =>
      have houtliers := Summary.outliers_ofSorted hm
      exact .inr ⟨m, _, rfl, rfl, Summary.reordered_outside h houtliers⟩

/-- Two zeros of each sign around the quartiles, and an outlier on either side. -/
theorem summarize_of_perm_zeros :
    ([0.0, 9.0, -0.0, 0.0, -7.0, -0.0] : List Float).Perm [-7.0, -0.0, -0.0, 0.0, 0.0, 9.0] ∧
    ∃ m n, (Sample.mk [0.0, 9.0, -0.0, 0.0, -7.0, -0.0]).summarize = .ok m ∧
      (Sample.mk [-7.0, -0.0, -0.0, 0.0, 0.0, 9.0]).summarize = .ok n ∧
      m.Reordered n [0.0, 9.0, -0.0, 0.0, -7.0, -0.0] [-7.0, -0.0, -0.0, 0.0, 0.0, 9.0] := by
  have hperm : ([0.0, 9.0, -0.0, 0.0, -7.0, -0.0] : List Float).Perm
    [-7.0, -0.0, -0.0, 0.0, 0.0, 9.0] := by decide
  refine ⟨hperm, ?_⟩
  rcases summarize_of_perm (s := ⟨_⟩) (t := ⟨_⟩) hperm with ⟨fault, hfault, -⟩ | h
  · obtain ⟨m, hm, -⟩ :=
      Sample.summarize_ok (s := ⟨[0.0, 9.0, -0.0, 0.0, -7.0, -0.0]⟩) (by decide)
    rw [hm] at hfault
    cases hfault
  · exact h

end FigureData
