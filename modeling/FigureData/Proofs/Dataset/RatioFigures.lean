/-
  The figures of a cost comparison tell what its column of ratios tells.

  No cell holds a number that is none, so a column with missing cells is a list of numbers, and
  what maximum, shares and drawing of such a list say of each other holds of the finished
  dataset: nothing after the summary of the ratios writes under its names.

  Proved:
  * `Dataset.isNaN_of_mem_fraction`: no cell of the column holds a number that is none.
  * `Dataset.ratiosAgree_of_ofDescriptor`: the figures of a cost comparison.
  * `ratio_figures_agree`: the same of lists of ratios and of the datasets.
-/
import FigureData.Descriptor.Catalogue
import FigureData.Proofs.Dataset.Figures
import FigureData.Proofs.Statistics.Shares

namespace FigureData

namespace Dataset

/-! ## Cost comparisons -/

/-- The scalars and the drawing of a dataset tell what its column of ratios tells. -/
structure RatiosAgree (c : Dataset) : Prop where
  columnValues_eq : c.columnValues "fraction" = .ok (c.numbers "fraction")
  isNaN : ∀ x ∈ c.numbers "fraction", x.isNaN = false
  /-- Shares for larger thresholds are not smaller. -/
  shares : (c.numbers "fraction").length < 2 ^ 53 →
    ∃ zero mid one, c.scalars.find? "zero_point" = some zero ∧
      c.scalars.find? "mid_point" = some mid ∧
      c.scalars.find? "fraction_less_equal_one" = some one ∧ zero ≤ mid ∧ mid ≤ one
  /-- The curve is drawn as it fits the ratios. -/
  branch_eq : c.branch = some (.ofRatios (c.numbers "fraction"))
  /-- It is drawn in one piece where everything is at or below one, or nothing is there. -/
  bounded_iff : (c.numbers "fraction").length < 2 ^ 53 →
    (c.branch = some .bounded ↔ c.scalars.find? "fraction_less_equal_one" = some 1.0 ∨
      ∀ row ∈ c.rows, c.numberAt? row "fraction" = none)
  /-- A split repeats the scalars. -/
  split : ∀ m f, c.branch = some (.withOutliers m f) →
    c.scalars.find? "max_ratio" = some m ∧ c.scalars.find? "fraction_less_equal_one" = some f

section CostComparison

variable {number : UInt8} {entities : List EntitySummary} {c : Dataset}
  (h : ofDescriptor (.costComparison number) entities = .ok c)
include h

/-- No cell of the column holds a number that is none. -/
theorem isNaN_of_mem_fraction {x : Float} (hx : x ∈ c.numbers "fraction") : x.isNaN = false := by
  have hcolumn : ((Descriptor.costComparison number).columns.find? fun c =>
    c.header = "fraction") = some (.ratio "fraction") := rfl
  obtain ⟨e, -, i, hcell⟩ := exists_cell_of_mem_numbers h hcolumn hx
  exact (eq_some_of_number?_ofOption hcell).2

theorem ratiosAgree_of_ofDescriptor : c.RatiosAgree := by
  have hnum : ∀ x ∈ c.numbers "fraction", x.isNaN = false := fun _ => isNaN_of_mem_fraction h
  obtain ⟨-, -, hcolumns, -⟩ := ofDescriptor_eq_ok h
  obtain ⟨hone, -, hbranch, hmax⟩ := ratioSummary_spec "fraction" rfl (by decide) h
  have hmidRule : (Descriptor.costComparison number).scalars = [.ratioSummary "fraction"] ++
    .fractionAtOrBelow "mid_point" "fraction" 0.5 ::
      [.fractionAtOrBelow "zero_point" "fraction" 0.0] := rfl
  have hzeroRule : (Descriptor.costComparison number).scalars =
    [.ratioSummary "fraction", .fractionAtOrBelow "mid_point" "fraction" 0.5] ++
      .fractionAtOrBelow "zero_point" "fraction" 0.0 :: [] := rfl
  have hmid := find?_fractionAtOrBelow h hmidRule (by decide)
  have hzero := find?_fractionAtOrBelow h hzeroRule (by decide)
  refine ⟨?_, hnum, ?_, hbranch, ?_, ?_⟩
  · refine columnValues_eq ?_
    rw [hcolumns]
    exact (Descriptor.costComparison number).mem_resolvedColumns entities (of_decide_eq_true rfl)
  · intro hlength
    exact ⟨_, _, _, hzero, hmid, hone, fraction_mono hlength (by decide),
      fraction_mono hlength (by decide)⟩
  · intro hlength
    rw [hbranch, Option.some.injEq, CurveBranch.ofRatios_eq_bounded_iff hnum, hone,
      Option.some.injEq, fraction_eq_one_iff hlength, ← numbers_eq_nil_iff]
    constructor
    · intro hle
      by_cases hnil : c.numbers "fraction" = []
      · exact .inr hnil
      · exact .inl ⟨hnil, hle⟩
    · rintro (⟨-, hle⟩ | hnil)
      · exact hle
      · rw [hnil]
        exact List.forall_mem_nil _
  · intro m f hsplit
    rw [hbranch, Option.some.injEq] at hsplit
    obtain ⟨hlt, rfl, rfl⟩ := CurveBranch.ofRatios_eq_withOutliers_iff.1 hsplit
    exact ⟨hmax (Binary64.isNaN_of_lt hlt), hone⟩

end CostComparison

end Dataset

/-- Maximum, shares and drawing tell the same of every list of ratios, and so do the scalars and
the drawing of the dataset of every cost comparison. -/
theorem ratio_figures_agree :
    (∀ ratios : List Float, (∀ x ∈ ratios, x.isNaN = false) → ratios.length < 2 ^ 53 →
      FiguresAgree ratios) ∧
    ∀ (number : UInt8) (entities : List EntitySummary),
      ∃ c, Dataset.ofDescriptor (.costComparison number) entities = .ok c ∧ c.RatiosAgree := by
  constructor
  · intro ratios hnum hlength
    exact figuresAgree hnum hlength
  · intro number entities
    have hnames : (Descriptor.costComparison number).namesColumns = true := rfl
    obtain ⟨-, -, complete, -, -, -, hc⟩ := Dataset.ofDescriptor_spec hnames entities
    exact ⟨_, hc, Dataset.ratiosAgree_of_ofDescriptor hc⟩

/-- Two networks: on one the candidate costs twice as much, and the other has no ratio. -/
def comparedNetworks : List EntitySummary :=
  [{ id := "A", discovery := 0, ideal := none, summaries := ∅, means := ∅, scalars := ∅,
     comparisons := SortedMap.insert ∅ "fraction" ⟨⟨2.0, .quotient⟩, 1.0, 2.0, none⟩ },
   { id := "B", discovery := 1, ideal := none, summaries := ∅, means := ∅, scalars := ∅,
     comparisons := ∅ }]

theorem ratio_figures_agree_of_networks :
    FiguresAgree [0.5, 2.0, 1.0] ∧
    ∃ c, Dataset.ofDescriptor (.costComparison 6) comparedNetworks = .ok c ∧ c.RatiosAgree ∧
      (c.numbers "fraction").length < 2 ^ 53 := by
  refine ⟨ratio_figures_agree.1 [0.5, 2.0, 1.0] (by decide) (by decide), ?_⟩
  obtain ⟨c, hc, hagree⟩ := ratio_figures_agree.2 6 comparedNetworks
  have hrows : c.rows.length = 2 := Dataset.length_rows_of_ofDescriptor hc
  refine ⟨c, hc, hagree, (c.length_numbers_le "fraction").trans_lt ?_⟩
  rw [hrows]
  decide

end FigureData
