/-
  The figures of a dataset: the numbers in its rows and the scalars made of a column.

  A scalar rule writes under names of its own, so what one rule has recorded is still there
  when the rules after it write under other names.

  Proved:
  * `Dataset.columnValues_eq`: the values of a column are the numbers that its rows have.
  * `Dataset.cell?_rowAt`, `Dataset.numberAt?_rowAt`: the cell of a row, and its number, are those
    of its entity in the column.
  * `Dataset.exists_cell_of_mem_numbers`: the numbers of a column are those of its cells.
  * `Dataset.fractionAtOrBelow_numbers`: a share is a count of rows over the number of rows.
  * `countP_rowsOf`: rows are counted like the entities they show.
  * `Dataset.find?_foldlM_applyScalar`, `Dataset.branch_foldlM_applyScalar`: rules leave
    scalars of other names and, unless they summarise ratios, the drawing of the curve.
  * `Dataset.ofDescriptor_rule`: what a rule sees and leaves in the finished dataset.
  * `Dataset.find?_fractionAtOrBelow`, `Dataset.ratioSummary_spec`: so a share and a summary of
    ratios are those of the numbers in the rows.
-/
import FigureData.Proofs.Dataset.Build
import FigureData.Proofs.Maps

namespace FigureData

open Outcome

/-! ## Numbers -/

theorem number?_ofOption {x : Float} (h : x.isNaN = false) :
    (Cell.ofOption (some x)).number? = some x := by
  rw [Cell.ofOption_some h]
  rfl

/-- A number in a cell is the value that the cell is for. -/
theorem eq_some_of_number?_ofOption {value : Option Float} {x : Float}
    (h : (Cell.ofOption value).number? = some x) : value = some x ∧ x.isNaN = false := by
  cases value with
  | none => cases h
  | some y =>
    cases hnan : y.isNaN with
    | true =>
      rw [show Cell.ofOption (some y) = .missing from if_pos hnan] at h
      cases h
    | false =>
      rw [number?_ofOption hnan] at h
      cases h
      exact ⟨rfl, hnan⟩

namespace Dataset

/-- The number of a row in the first column with a header. -/
def numberAt? (d : Dataset) (row : Row) (header : String) : Option Float :=
  (d.columnIndex? header).bind fun i => row.cells[i]?.bind Cell.number?

/-- The numbers of a column, in row order. -/
def numbers (d : Dataset) (header : String) : List Float :=
  d.rows.filterMap fun row => d.numberAt? row header

theorem columnValues_eq {d : Dataset} {header : String} (h : header ∈ d.columns) :
    d.columnValues header = .ok (d.numbers header) := by
  obtain ⟨i, hi⟩ := columnIndex?_isSome h
  unfold columnValues numbers numberAt?
  rw [hi]
  rfl

/-- Numbers are read by headers and rows alone. -/
theorem numbers_congr {d d' : Dataset} (hcolumns : d'.columns = d.columns)
    (hrows : d'.rows = d.rows) (header : String) : d'.numbers header = d.numbers header := by
  unfold numbers numberAt? columnIndex?
  rw [hcolumns, hrows]

/-- The numbers of a column are no more than the rows. -/
theorem length_numbers_le (d : Dataset) (header : String) :
    (d.numbers header).length ≤ d.rows.length := List.length_filterMap_le ..

theorem numbers_eq_nil_iff {d : Dataset} {header : String} :
    d.numbers header = [] ↔ ∀ row ∈ d.rows, d.numberAt? row header = none :=
  List.filterMap_eq_nil_iff

/-- The cell of a row in the first column with a header. -/
def cell? (d : Dataset) (row : Row) (header : String) : Option Cell :=
  (d.columnIndex? header).bind fun i => row.cells[i]?

theorem numberAt?_eq (d : Dataset) (row : Row) (header : String) :
    d.numberAt? row header = (d.cell? row header).bind Cell.number? := by
  unfold numberAt? cell?
  rw [Option.bind_assoc]

/-- The cell of a row is that of its entity in the column. -/
theorem cell?_rowAt {d : Dataset} {columns : List Column} {header : String} (column : Column)
    (hcolumns : d.columns = columns.map Column.header)
    (hcolumn : (columns.find? fun c => c.header = header) = some column)
    (e : EntitySummary) (index : Nat) :
    d.cell? (e.rowAt columns index) header = some (e.cellAt index column) := by
  rw [List.find?_eq_bind_findIdx?_getElem?] at hcolumn
  obtain ⟨i, hi, hcolumn⟩ := Option.bind_eq_some_iff.1 hcolumn
  have hindex : d.columnIndex? header = some i := by
    unfold columnIndex?
    rw [hcolumns, List.findIdx?_map]
    exact hi
  unfold cell? EntitySummary.rowAt
  rw [hindex, Option.bind_some, List.getElem?_map, hcolumn]
  rfl

/-- The number of a row is that of its entity's cell in the column. -/
theorem numberAt?_rowAt {d : Dataset} {columns : List Column} {header : String} (column : Column)
    (hcolumns : d.columns = columns.map Column.header)
    (hcolumn : (columns.find? fun c => c.header = header) = some column)
    (e : EntitySummary) (index : Nat) :
    d.numberAt? (e.rowAt columns index) header = (e.cellAt index column).number? := by
  rw [numberAt?_eq, cell?_rowAt column hcolumns hcolumn, Option.bind_some]

/-- A share counts the rows whose number is at or below the threshold. -/
theorem fractionAtOrBelow_numbers {d : Dataset} {header : String} {threshold : Float}
    {p : Row → Bool}
    (h : ∀ row ∈ d.rows, ∃ x, d.numberAt? row header = some x ∧ (x ≤ threshold ↔ p row = true)) :
    fractionAtOrBelow (d.numbers header) threshold =
      if d.rows = [] then 0.0
      else Binary64.ofNat (d.rows.countP p) / Binary64.ofNat d.rows.length := by
  have hcounts : (d.numbers header).length = d.rows.length ∧
      ((d.numbers header).filter fun x => decide (x ≤ threshold)).length = d.rows.countP p := by
    unfold numbers
    generalize d.rows = rows at h
    induction rows with
    | nil => exact ⟨rfl, rfl⟩
    | cons row rest ih =>
      rw [List.forall_mem_cons] at h
      obtain ⟨⟨x, hx, hle⟩, hrest⟩ := h
      obtain ⟨hlength, hcount⟩ := ih hrest
      rw [List.filterMap_cons_some (f := fun row => d.numberAt? row header) hx, List.filter_cons,
        List.countP_cons, ← hcount,
        List.length_cons, List.length_cons, hlength]
      refine ⟨rfl, ?_⟩
      by_cases hp : p row = true
      · rw [if_pos (decide_eq_true (hle.2 hp)), if_pos hp, List.length_cons]
      · rw [if_neg (by rw [decide_eq_true_eq, hle]; exact hp), if_neg hp, Nat.add_zero]
  unfold fractionAtOrBelow
  rw [hcounts.2, hcounts.1]
  refine if_congr ?_ rfl rfl
  rw [List.isEmpty_iff_length_eq_zero, hcounts.1, List.length_eq_zero_iff]

end Dataset

/-! ## Rows -/

theorem mem_rowsOf {columns : List Column} {ordered : List EntitySummary} {row : Row}
    (h : row ∈ rowsOf columns ordered) : ∃ e ∈ ordered, ∃ i, row = e.rowAt columns i := by
  obtain ⟨⟨e, i⟩, hmem, rfl⟩ := List.mem_map.1 h
  exact ⟨e, List.fst_mem_of_mem_zipIdx hmem, i, rfl⟩

/-- The numbers of a declared column are those of its cells. -/
theorem Dataset.exists_cell_of_mem_numbers {d : Descriptor} {entities : List EntitySummary}
    {c : Dataset} (h : ofDescriptor d entities = .ok c) {header : String} {column : Column}
    (hcolumn : (d.columns.find? fun c => c.header = header) = some column) {x : Float}
    (hx : x ∈ c.numbers header) :
    ∃ e ∈ entities, ∃ i, (e.cellAt i column).number? = some x := by
  obtain ⟨ordered, hperm, hcolumns, hrows⟩ := ofDescriptor_eq_ok h
  have hfind : ((d.resolvedColumns entities).find? fun c => c.header = header) = some column := by
    unfold Descriptor.resolvedColumns
    split
    · rw [List.find?_append, hcolumn, Option.some_or]
    · exact hcolumn
  obtain ⟨row, hrow, hnumber⟩ := List.mem_filterMap.1 hx
  rw [hrows] at hrow
  obtain ⟨e, he, i, rfl⟩ := mem_rowsOf hrow
  rw [numberAt?_rowAt column hcolumns hfind] at hnumber
  exact ⟨e, hperm.mem_iff.1 he, i, hnumber⟩

/-- Rows have the identifiers of the entities they show. -/
theorem map_id_rowsOf (columns : List Column) (ordered : List EntitySummary) :
    (rowsOf columns ordered).map Row.id = ordered.map EntitySummary.id := by
  unfold rowsOf
  rw [List.map_map]
  show ordered.zipIdx.map (EntitySummary.id ∘ Prod.fst) = _
  rw [← List.map_map, List.zipIdx_map_fst]

/-- Rows are counted like the entities they show. -/
theorem countP_rowsOf {columns : List Column} {ordered : List EntitySummary} {p : Row → Bool}
    {q : EntitySummary → Bool} (h : ∀ e ∈ ordered, ∀ i, p (e.rowAt columns i) = q e) :
    (rowsOf columns ordered).countP p = ordered.countP q := by
  unfold rowsOf
  rw [List.countP_map]
  have hentities : ordered.countP q = (ordered.zipIdx.map Prod.fst).countP q := by
    rw [List.zipIdx_map_fst]
  rw [hentities, List.countP_map]
  apply List.countP_congr
  intro x hx
  show p (x.1.rowAt columns x.2) = true ↔ q x.1 = true
  rw [h x.1 (List.fst_mem_of_mem_zipIdx hx)]

/-! ## Frames of the scalar rules -/

/-- The names under which a rule records scalars. -/
def ScalarRule.names : ScalarRule → List String
  | .ratioSummary _ => ["fraction_less_equal_one", "max_ratio", "both_zero_count"]
  | .fractionAtOrBelow name _ _ | .columnMedian name _ | .columnSum name _ => [name]

/-- Does a rule record how the curve is drawn? -/
def ScalarRule.drawsCurve : ScalarRule → Bool
  | .ratioSummary _ => true
  | _ => false

namespace Dataset

section Frame

variable {ties : String → Nat} {d d' : Dataset} {rule : ScalarRule} {name : String}

theorem find?_withScalar_of_ne {other : String} (h : name ≠ other) (value : Float) :
    (d.withScalar other value).scalars.find? name = d.scalars.find? name :=
  SortedMap.find?_insert_of_ne d.scalars value h

/-- A rule leaves the scalars of other names. -/
theorem find?_applyScalar (h : d.applyScalar ties rule = .ok d') (hname : name ∉ rule.names) :
    d'.scalars.find? name = d.scalars.find? name := by
  obtain ⟨values, -, rfl⟩ := map_eq_ok h
  cases rule with
  | ratioSummary column =>
    simp only [ScalarRule.names, List.mem_cons, List.not_mem_nil, or_false, not_or] at hname
    obtain ⟨hfraction, hmax, hties⟩ := hname
    show (withScalar _ "both_zero_count" _).scalars.find? name = _
    rw [find?_withScalar_of_ne hties]
    split
    · exact find?_withScalar_of_ne hfraction _
    · exact (find?_withScalar_of_ne hmax _).trans (find?_withScalar_of_ne hfraction _)
  | fractionAtOrBelow own column threshold =>
    exact find?_withScalar_of_ne (List.ne_of_not_mem_cons hname) _
  | columnMedian own column =>
    show (d.withMedian own values).scalars.find? name = _
    unfold withMedian
    split
    · rfl
    split
    · exact find?_withScalar_of_ne (List.ne_of_not_mem_cons hname) _
    · rfl
  | columnSum own column => exact find?_withScalar_of_ne (List.ne_of_not_mem_cons hname) _

/-- A rule that is no summary of ratios leaves the drawing of the curve. -/
theorem branch_applyScalar (h : d.applyScalar ties rule = .ok d')
    (hrule : rule.drawsCurve = false) : d'.branch = d.branch := by
  obtain ⟨values, -, rfl⟩ := map_eq_ok h
  cases rule with
  | ratioSummary column => cases hrule
  | fractionAtOrBelow own column threshold => rfl
  | columnMedian own column =>
    show (d.withMedian own values).branch = _
    unfold withMedian
    split
    · rfl
    split
    · rfl
    · rfl
  | columnSum own column => rfl

theorem find?_foldlM_applyScalar {rules : List ScalarRule}
    (h : rules.foldlM (applyScalar ties) d = .ok d') (hname : ∀ rule ∈ rules, name ∉ rule.names) :
    d'.scalars.find? name = d.scalars.find? name := by
  induction rules generalizing d with
  | nil =>
    cases h
    rfl
  | cons rule rest ih =>
    rw [List.foldlM_cons] at h
    rw [List.forall_mem_cons] at hname
    obtain ⟨next, hnext, h⟩ := bind_eq_ok h
    exact (ih h hname.2).trans (find?_applyScalar hnext hname.1)

theorem branch_foldlM_applyScalar {rules : List ScalarRule}
    (h : rules.foldlM (applyScalar ties) d = .ok d')
    (hrules : ∀ rule ∈ rules, rule.drawsCurve = false) : d'.branch = d.branch := by
  induction rules generalizing d with
  | nil =>
    cases h
    rfl
  | cons rule rest ih =>
    rw [List.foldlM_cons] at h
    rw [List.forall_mem_cons] at hrules
    obtain ⟨next, hnext, h⟩ := bind_eq_ok h
    exact (ih h hrules.2).trans (branch_applyScalar hnext hrules.1)

end Frame

/-! ## Rules in the finished dataset -/

/-- A rule sees the numbers that the finished dataset shows, and what it leaves is still there
where the rules after it write under other names. -/
theorem ofDescriptor_rule {d : Descriptor} {entities : List EntitySummary} {c : Dataset}
    (h : ofDescriptor d entities = .ok c) {before after : List ScalarRule} {rule : ScalarRule}
    (hscalars : d.scalars = before ++ rule :: after) :
    ∃ prior next : Dataset, prior.columnValues rule.column = .ok (c.numbers rule.column) ∧
      prior.applyScalar (bothZeroCount d entities) rule = .ok next ∧
      (∀ name, (∀ r ∈ after, name ∉ r.names) →
        c.scalars.find? name = next.scalars.find? name) ∧
      ((∀ r ∈ after, r.drawsCurve = false) → c.branch = next.branch) := by
  obtain ⟨ordered, table, complete, -, -, hcomplete, rfl⟩ := ofDescriptor_stages h
  obtain ⟨hsameColumns, hsameRows, hsameScalars, hsameBranch⟩ :=
    withAttachments_fields d.attachment entities complete
  rw [hscalars, List.foldlM_append] at hcomplete
  obtain ⟨prior, -, hcomplete⟩ := bind_eq_ok hcomplete
  rw [List.foldlM_cons] at hcomplete
  obtain ⟨next, hnext, hcomplete⟩ := bind_eq_ok hcomplete
  obtain ⟨hcolumns, hrows⟩ := applyScalar_fields hnext
  obtain ⟨hcolumns', hrows'⟩ := foldlM_applyScalar_fields hcomplete
  refine ⟨prior, next, ?_, hnext, ?_, ?_⟩
  · rw [columnValues_eq (column_mem_of_applyScalar hnext),
      numbers_congr (hsameColumns.trans (hcolumns'.trans hcolumns))
        (hsameRows.trans (hrows'.trans hrows))]
  · intro name hname
    rw [hsameScalars, find?_foldlM_applyScalar hcomplete hname]
  · intro hdraws
    rw [hsameBranch, branch_foldlM_applyScalar hcomplete hdraws]

/-- The share that a rule leaves in the finished dataset. -/
theorem find?_fractionAtOrBelow {d : Descriptor} {entities : List EntitySummary} {c : Dataset}
    (h : ofDescriptor d entities = .ok c) {before after : List ScalarRule} {name column : String}
    {threshold : Float}
    (hscalars : d.scalars = before ++ .fractionAtOrBelow name column threshold :: after)
    (hafter : ∀ r ∈ after, name ∉ r.names) :
    c.scalars.find? name = some (fractionAtOrBelow (c.numbers column) threshold) := by
  obtain ⟨prior, next, hvalues, hnext, hkept, -⟩ := ofDescriptor_rule h hscalars
  unfold applyScalar at hnext
  rw [hvalues] at hnext
  cases hnext
  exact (hkept name hafter).trans (SortedMap.find?_insert_self ..)

/-! ## Summaries of ratios -/

theorem withRatioSummary_spec (d : Dataset) (ratios : List Float) (ties : Nat) :
    (d.withRatioSummary ratios ties).scalars.find? "fraction_less_equal_one" =
        some (fractionAtOrBelow ratios 1.0) ∧
      (d.withRatioSummary ratios ties).scalars.find? "both_zero_count" =
        some (Binary64.ofNat ties) ∧
      (d.withRatioSummary ratios ties).branch = some (.ofRatios ratios) ∧
      ((maximum ratios).isNaN = false →
        (d.withRatioSummary ratios ties).scalars.find? "max_ratio" = some (maximum ratios)) := by
  refine ⟨?_, SortedMap.find?_insert_self .., rfl, ?_⟩
  · show (withScalar _ "both_zero_count" _).scalars.find? "fraction_less_equal_one" = _
    rw [find?_withScalar_of_ne (by decide)]
    split
    · exact SortedMap.find?_insert_self ..
    · exact (find?_withScalar_of_ne (by decide) _).trans (SortedMap.find?_insert_self ..)
  · intro hnumber
    show (withScalar _ "both_zero_count" _).scalars.find? "max_ratio" = _
    rw [find?_withScalar_of_ne (by decide), if_neg (by rw [hnumber]; decide)]
    exact SortedMap.find?_insert_self ..

/-- What a summary of ratios leaves in the finished dataset, where the rules after it write
under other names. -/
theorem ratioSummary_spec {d : Descriptor} (column : String) {rest : List ScalarRule}
    (hscalars : d.scalars = .ratioSummary column :: rest)
    (hrest : ∀ rule ∈ rest, rule.drawsCurve = false ∧ "fraction_less_equal_one" ∉ rule.names ∧
      "both_zero_count" ∉ rule.names ∧ "max_ratio" ∉ rule.names)
    {entities : List EntitySummary} {c : Dataset} (h : ofDescriptor d entities = .ok c) :
    c.scalars.find? "fraction_less_equal_one" =
      some (fractionAtOrBelow (c.numbers column) 1.0) ∧
    c.scalars.find? "both_zero_count" =
      some (Binary64.ofNat (bothZeroCount d entities column)) ∧
    c.branch = some (.ofRatios (c.numbers column)) ∧
    ((maximum (c.numbers column)).isNaN = false →
      c.scalars.find? "max_ratio" = some (maximum (c.numbers column))) := by
  rw [← List.nil_append (_ :: rest)] at hscalars
  obtain ⟨prior, next, hvalues, hnext, hkept, hdrawn⟩ := ofDescriptor_rule h hscalars
  unfold applyScalar at hnext
  rw [hvalues] at hnext
  cases hnext
  obtain ⟨hfraction, hties, hbranch, hmax⟩ :=
    prior.withRatioSummary_spec (c.numbers column) (bothZeroCount d entities column)
  refine ⟨?_, ?_, ?_, ?_⟩
  · rw [hkept _ fun rule hr => (hrest rule hr).2.1]
    exact hfraction
  · rw [hkept _ fun rule hr => (hrest rule hr).2.2.1]
    exact hties
  · rw [hdrawn fun rule hr => (hrest rule hr).1]
    exact hbranch
  · rw [hkept _ fun rule hr => (hrest rule hr).2.2.2]
    exact hmax

end Dataset

end FigureData
