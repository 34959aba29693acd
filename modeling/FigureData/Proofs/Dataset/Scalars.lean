/-
  Which scalars of a dataset are finite.

  A share is at most one, a count and a sum of counts are far below the largest double, and a
  median of finite numbers lies between them.  Only the largest ratio can be an infinity: a
  quotient may overflow, and nothing bounds the number configured for a quotient by zero.

  Proved:
  * `isFinite_fractionAtOrBelow`: a share is finite.
  * `Dataset.figuresFinite_applyScalar`: a scalar rule on finite numbers records finite scalars,
    apart from a largest ratio, which the drawing of the curve shares.
  * `Dataset.figuresFinite_foldlM`, `Dataset.figuresFinite_ofDescriptor`: and so do all rules.
  * `Dataset.mem_numbers_scalar`: the numbers of a column of scalars are scalars of the entities.
-/
import FigureData.Proofs.Binary64.Sums
import FigureData.Proofs.Dataset.Figures
import FigureData.Proofs.Json.Finite
import FigureData.Proofs.Statistics.Summary

namespace FigureData

open Binary64 Outcome

/-! ## Figures -/

/-- A share is finite. -/
theorem isFinite_fractionAtOrBelow {values : List Float} (h : values.length ≤ 2 ^ 64)
    (threshold : Float) : (fractionAtOrBelow values threshold).isFinite = true := by
  unfold fractionAtOrBelow
  split
  next => rfl
  next hne =>
    have hpos : 0 < values.length := by
      rw [List.isEmpty_iff_length_eq_zero] at hne
      omega
    have hcount : (values.filter fun x => decide (x ≤ threshold)).length ≤ 2 ^ 64 :=
      (List.length_filter_le ..).trans h
    -- The divisor is at least one.
    have hone : oneBits ≤ magnitudeBits (ofNat values.length) := by
      obtain ⟨k, hk, hmag, -⟩ := isRounded_ofNat values.length
      have hle : oneBits ≤ k := by
        refine hk.le_of_scale_le ?_
        rw [scale_oneBits]
        exact_mod_cast hpos
      unfold oneBits infinityBits at *
      omega
    have hfinite := Json.isFinite_ofNat hcount
    rw [isFinite_iff] at hfinite ⊢
    exact (magnitudeBits_div_le (isFinite_iff.2 hfinite) (Json.isFinite_ofNat h) hone).trans_lt
      hfinite

/-- All scalars are finite, unless it is the largest ratio. -/
def OthersFinite (scalars : SortedMap String Float) : Prop :=
  ∀ e ∈ scalars.entries, e.1 ≠ "max_ratio" → e.2.isFinite = true

theorem OthersFinite.insert {scalars : SortedMap String Float} (h : OthersFinite scalars)
    {name : String} {x : Float} (hx : name ≠ "max_ratio" → x.isFinite = true) :
    OthersFinite (scalars.insert name x) := by
  intro e he hname
  rcases mem_insertEntry he with rfl | he
  · exact hx hname
  · exact h e he hname

/-- A rule that records finite scalars on a table, apart from a largest ratio. -/
def ScalarRule.IsTame (table : Dataset) : ScalarRule → Prop
  | .ratioSummary _ => True
  | .fractionAtOrBelow name _ _ => name ≠ "max_ratio"
  | .columnMedian name column =>
    name ≠ "max_ratio" ∧ ∀ x ∈ table.numbers column, x.isFinite = true
  | .columnSum name column =>
    name ≠ "max_ratio" ∧ ∀ x ∈ table.numbers column, ∃ n < 2 ^ 64, x = ofNat n

/-- Tameness depends on headers and rows alone. -/
theorem ScalarRule.IsTame.congr {rule : ScalarRule} {d d' : Dataset} (h : rule.IsTame d)
    (hcolumns : d'.columns = d.columns) (hrows : d'.rows = d.rows) : rule.IsTame d' := by
  unfold ScalarRule.IsTame at h ⊢
  simp only [Dataset.numbers_congr hcolumns hrows]
  exact h

namespace Dataset

/-- All figures are finite, apart from the largest ratio, which the drawing of the curve shares
with the scalars. -/
structure FiguresFinite (d : Dataset) : Prop where
  scalars : OthersFinite d.scalars
  branch : ∀ maxRatio fraction, d.branch = some (.withOutliers maxRatio fraction) →
    fraction.isFinite = true ∧ d.scalars.find? "max_ratio" = some maxRatio

variable {d d' : Dataset}

theorem FiguresFinite.withScalar (h : d.FiguresFinite) {name : String} (hname : name ≠ "max_ratio")
    {x : Float} (hx : x.isFinite = true) : (d.withScalar name x).FiguresFinite := by
  refine ⟨h.scalars.insert fun _ => hx, fun maxRatio fraction hbranch => ?_⟩
  obtain ⟨hfraction, hmax⟩ := h.branch maxRatio fraction hbranch
  exact ⟨hfraction, (find?_withScalar_of_ne hname.symm x).trans hmax⟩

theorem figuresFinite_withRatioSummary (h : d.FiguresFinite) {ratios : List Float} {ties : Nat}
    (hratios : ratios.length ≤ 2 ^ 64) (hties : ties ≤ 2 ^ 64) :
    (d.withRatioSummary ratios ties).FiguresFinite := by
  have hfraction := isFinite_fractionAtOrBelow hratios 1.0
  constructor
  · show OthersFinite (withScalar _ "both_zero_count" _).scalars
    refine OthersFinite.insert ?_ fun _ => Json.isFinite_ofNat hties
    split
    · exact h.scalars.insert fun _ => hfraction
    · exact (h.scalars.insert fun _ => hfraction).insert fun hname => absurd rfl hname
  · intro maxRatio fraction hbranch
    have hratio : CurveBranch.ofRatios ratios = .withOutliers maxRatio fraction :=
      Option.some.inj hbranch
    unfold CurveBranch.ofRatios at hratio
    split at hratio
    next hlt =>
      cases hratio
      refine ⟨hfraction, ?_⟩
      show (withScalar _ "both_zero_count" _).scalars.find? "max_ratio" = _
      rw [find?_withScalar_of_ne (by decide)]
      simp only [isNaN_of_lt hlt, Bool.false_eq_true, if_false]
      exact SortedMap.find?_insert_self ..
    next => cases hratio

/-- A scalar rule on finite numbers records finite scalars, apart from a largest ratio. -/
theorem figuresFinite_applyScalar {ties : String → Nat} {rule : ScalarRule}
    (h : d.applyScalar ties rule = .ok d') (hd : d.FiguresFinite) (hrows : d.rows.length ≤ 2 ^ 64)
    (hties : ∀ name, ties name ≤ 2 ^ 64) (hrule : rule.IsTame d) : d'.FiguresFinite := by
  have hcolumn := columnValues_eq (column_mem_of_applyScalar h)
  unfold applyScalar at h
  rw [hcolumn] at h
  cases h
  have hlength := (d.length_numbers_le rule.column).trans hrows
  cases rule with
  | ratioSummary column => exact figuresFinite_withRatioSummary hd hlength (hties column)
  | fractionAtOrBelow name column threshold =>
    exact hd.withScalar hrule (isFinite_fractionAtOrBelow hlength threshold)
  | columnMedian name column =>
    obtain ⟨hname, hfinite⟩ := hrule
    show (d.withMedian name (d.numbers column)).FiguresFinite
    unfold withMedian
    split
    · exact hd
    next hne =>
      split
      next x hx =>
        refine hd.withScalar hname (isFinite_percentile? ?_ ?_ hx)
        · intro y hy
          exact hfinite y ((List.mergeSort_perm _ _).mem_iff.1 hy)
        · intro hnil
          have hperm := List.mergeSort_perm (d.numbers column) totalLe
          rw [show (d.numbers column).mergeSort totalLe = [] from hnil] at hperm
          rw [List.nil_perm.1 hperm] at hne
          exact hne rfl
      next => exact hd
  | columnSum name column => exact hd.withScalar hrule.1 (isFinite_sum_ofNat hrule.2)

/-- So do all rules, one after the other. -/
theorem figuresFinite_foldlM {ties : String → Nat} {rules : List ScalarRule}
    (h : rules.foldlM (applyScalar ties) d = .ok d') (hd : d.FiguresFinite)
    (hrows : d.rows.length ≤ 2 ^ 64) (hties : ∀ name, ties name ≤ 2 ^ 64)
    (hrules : ∀ rule ∈ rules, rule.IsTame d) : d'.FiguresFinite := by
  induction rules generalizing d with
  | nil =>
    cases h
    exact hd
  | cons rule rest ih =>
    rw [List.foldlM_cons] at h
    rw [List.forall_mem_cons] at hrules
    obtain ⟨next, hnext, h⟩ := bind_eq_ok h
    obtain ⟨hcolumns, hsameRows⟩ := applyScalar_fields hnext
    refine ih h (figuresFinite_applyScalar hnext hd hrows hties hrules.1) (hsameRows ▸ hrows) ?_
    intro other hother
    exact (hrules.2 other hother).congr hcolumns hsameRows

/-- The figures of a dataset are finite, apart from the largest ratio. -/
theorem figuresFinite_ofDescriptor {descriptor : Descriptor} {entities : List EntitySummary}
    (h : ofDescriptor descriptor entities = .ok d) (hrows : d.rows.length ≤ 2 ^ 64)
    (hrules : ∀ rule ∈ descriptor.scalars, rule.IsTame d) : d.FiguresFinite := by
  obtain ⟨ordered, table, complete, hperm, htable, hcomplete, rfl⟩ := ofDescriptor_stages h
  obtain ⟨hcolumns, hsameRows⟩ := foldlM_applyScalar_fields hcomplete
  obtain ⟨hcolumns', hsameRows', hscalars, hbranch⟩ :=
    withAttachments_fields descriptor.attachment entities complete
  have htableRows : table.rows.length ≤ 2 ^ 64 := by
    rw [← hsameRows, ← hsameRows']
    exact hrows
  have hentities : entities.length ≤ 2 ^ 64 := by
    rw [htable, rowsOf, List.length_map, List.length_zipIdx, hperm.length_eq] at htableRows
    exact htableRows
  have hties : ∀ name, bothZeroCount descriptor entities name ≤ 2 ^ 64 := by
    intro name
    unfold bothZeroCount
    split
    · exact (List.length_filter_le ..).trans hentities
    · exact Nat.zero_le _
  have hstart : table.FiguresFinite := by
    rw [htable]
    exact ⟨fun e he => absurd he List.not_mem_nil, fun _ _ hnone => by cases hnone⟩
  have hall : complete.FiguresFinite := by
    refine figuresFinite_foldlM hcomplete hstart htableRows hties fun rule hrule => ?_
    exact (hrules rule hrule).congr (hcolumns'.trans hcolumns).symm
      (hsameRows'.trans hsameRows).symm
  constructor
  · rw [hscalars]
    exact hall.scalars
  · rw [hscalars, hbranch]
    exact hall.branch

/-- The numbers of a column of scalars are scalars of the entities. -/
theorem mem_numbers_scalar {descriptor : Descriptor} {entities : List EntitySummary}
    (h : ofDescriptor descriptor entities = .ok d) {header : String}
    (hcolumn : descriptor.columns.find? (fun c => c.header = header) = some (.scalar header))
    {x : Float} (hx : x ∈ d.numbers header) : ∃ e ∈ entities, e.scalars.find? header = some x := by
  obtain ⟨e, he, i, hcell⟩ := exists_cell_of_mem_numbers h hcolumn hx
  exact ⟨e, he, (eq_some_of_number?_ofOption hcell).1⟩

end Dataset

end FigureData
