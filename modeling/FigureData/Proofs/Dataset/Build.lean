/-
  Datasets that a descriptor asks for: when they can be built, and what they hold.

  Proved:
  * `Dataset.assemble_spec`: a table has one row per entity, in an order that is a
    permutation of the entities, with the headers of its columns.
  * `Dataset.applyScalar_spec`: a scalar rule on a column of the table succeeds and leaves
    rows and headers.
  * `Dataset.ofDescriptor_spec`: where the sort key and the scalar rules name declared
    columns, the dataset of any entities is built.
  * `Dataset.ofDescriptor_stages`: a dataset that is built is a table of its entities with
    scalars, then with side files.
  * `Dataset.length_cells_of_ofDescriptor`: every row of a dataset has a cell for every column.
-/
import FigureData.Dataset.Build
import FigureData.Descriptor.Catalogue
import FigureData.Proofs.Outcome

namespace FigureData

open Outcome

/-! ## Tables -/

/-- A header of the table is that of a column, the first one being found. -/
theorem exists_find?_header {columns : List Column} {header : String}
    (h : header ∈ columns.map Column.header) :
    ∃ column, columns.find? (fun c => c.header = header) = some column := by
  obtain ⟨column, hmem, hheader⟩ := List.mem_map.1 h
  rw [← Option.isSome_iff_exists, List.find?_isSome]
  exact ⟨column, hmem, decide_eq_true hheader⟩

theorem applySort_perm {columns : List Column} {sort : Option SortKey}
    {entities ordered : List EntitySummary} (h : applySort columns sort entities = .ok ordered) :
    ordered.Perm entities := by
  unfold applySort at h
  split at h
  · cases h
    exact .refl _
  · split at h
    · cases h
      exact List.mergeSort_perm _ _
    · cases h

theorem applySort_spec {columns : List Column} {sort : Option SortKey}
    (h : ∀ key, sort = some key → key.column ∈ columns.map Column.header)
    (entities : List EntitySummary) :
    ∃ ordered, applySort columns sort entities = .ok ordered ∧ ordered.Perm entities := by
  have hsorts : ∃ ordered, applySort columns sort entities = .ok ordered := by
    unfold applySort
    split
    · exact ⟨_, rfl⟩
    next key =>
      obtain ⟨found, hfound⟩ := exists_find?_header (h key rfl)
      rw [hfound]
      exact ⟨_, rfl⟩
  obtain ⟨ordered, hordered⟩ := hsorts
  exact ⟨ordered, hordered, applySort_perm hordered⟩

/-- The rows of entities in their final order. -/
def rowsOf (columns : List Column) (ordered : List EntitySummary) : List Row :=
  ordered.zipIdx.map fun x => x.1.rowAt columns x.2

namespace Dataset

/-- A table has one row per entity and the headers of its columns. -/
theorem assemble_spec (evaluation : Evaluation) {columns : List Column} {sort : Option SortKey}
    (h : ∀ key, sort = some key → key.column ∈ columns.map Column.header)
    (entities : List EntitySummary) :
    ∃ ordered, ordered.Perm entities ∧
      assemble evaluation entities columns sort =
        .ok { evaluation
              columns := columns.map Column.header
              rows := rowsOf columns ordered } := by
  obtain ⟨ordered, hordered, hperm⟩ := applySort_spec h (discoveryOrder entities)
  refine ⟨ordered, hperm.trans (List.mergeSort_perm _ _), ?_⟩
  unfold assemble
  rw [hordered]
  rfl

/-! ## Scalars -/

theorem columnIndex?_isSome {d : Dataset} {header : String} (h : header ∈ d.columns) :
    ∃ i, d.columnIndex? header = some i := by
  unfold columnIndex?
  rw [← Option.isSome_iff_exists, List.findIdx?_isSome, List.any_eq_true]
  exact ⟨header, h, decide_eq_true rfl⟩

/-- A scalar rule on a column of the table succeeds and leaves rows and headers. -/
theorem applyScalar_spec (ties : String → Nat) {d : Dataset} {rule : ScalarRule}
    (h : rule.column ∈ d.columns) :
    ∃ d', d.applyScalar ties rule = .ok d' ∧ d'.columns = d.columns ∧ d'.rows = d.rows := by
  obtain ⟨i, hi⟩ := columnIndex?_isSome h
  unfold applyScalar columnValues
  rw [hi]
  refine ⟨_, rfl, ?_⟩
  cases rule with
  | ratioSummary column =>
    unfold withRatioSummary withScalar
    simp only
    split
    · exact ⟨rfl, rfl⟩
    · exact ⟨rfl, rfl⟩
  | fractionAtOrBelow name column threshold => exact ⟨rfl, rfl⟩
  | columnMedian name column =>
    unfold withMedian
    simp only
    split
    · exact ⟨rfl, rfl⟩
    split
    · exact ⟨rfl, rfl⟩
    · exact ⟨rfl, rfl⟩
  | columnSum name column => exact ⟨rfl, rfl⟩

theorem foldlM_applyScalar_spec (ties : String → Nat) {rules : List ScalarRule} {d : Dataset}
    (h : ∀ rule ∈ rules, rule.column ∈ d.columns) :
    ∃ d', rules.foldlM (applyScalar ties) d = .ok d' ∧ d'.columns = d.columns ∧
      d'.rows = d.rows := by
  induction rules generalizing d with
  | nil => exact ⟨d, rfl, rfl, rfl⟩
  | cons rule rest ih =>
    obtain ⟨next, hnext, hcolumns, hrows⟩ := applyScalar_spec ties (h rule (List.mem_cons_self ..))
    have hrest : ∀ r ∈ rest, r.column ∈ next.columns := by
      intro r hr
      rw [hcolumns]
      exact h r (List.mem_cons_of_mem _ hr)
    obtain ⟨d', hd', hcolumns', hrows'⟩ := ih hrest
    refine ⟨d', ?_, hcolumns'.trans hcolumns, hrows'.trans hrows⟩
    rw [List.foldlM_cons, hnext]
    exact hd'

end Dataset

/-! ## Datasets -/

/-- Do the sort key and the scalar rules name declared columns? -/
def Descriptor.namesColumns (d : Descriptor) : Bool :=
  (d.sort.all fun key => decide (key.column ∈ d.headers)) &&
    d.scalars.all fun rule => decide (rule.column ∈ d.headers)

/-- The descriptors of all evaluations sort and summarise declared columns only. -/
theorem namesColumns_descriptor (e : Evaluation) : e.descriptor.namesColumns = true := by
  cases e <;> rfl

/-- The declared columns are among those of the dataset. -/
theorem Descriptor.mem_resolvedColumns {d : Descriptor} (entities : List EntitySummary)
    {header : String} (h : header ∈ d.headers) :
    header ∈ (d.resolvedColumns entities).map Column.header := by
  unfold Descriptor.resolvedColumns
  split
  · rw [List.map_append]
    exact List.mem_append_left _ h
  · exact h

theorem Dataset.withAttachments_fields (rule : Option AttachmentRule)
    (entities : List EntitySummary) (d : Dataset) :
    (d.withAttachments rule entities).columns = d.columns ∧
      (d.withAttachments rule entities).rows = d.rows ∧
      (d.withAttachments rule entities).scalars = d.scalars ∧
      (d.withAttachments rule entities).branch = d.branch := by
  unfold Dataset.withAttachments
  split
  · exact ⟨rfl, rfl, rfl, rfl⟩
  · exact ⟨rfl, rfl, rfl, rfl⟩

/-- Where the sort key and the scalar rules name declared columns, the dataset of any
entities is built. -/
theorem Dataset.ofDescriptor_spec {d : Descriptor} (h : d.namesColumns = true)
    (entities : List EntitySummary) :
    ∃ ordered table complete,
      ordered.Perm entities ∧
      table = { evaluation := d.evaluation,
                columns := (d.resolvedColumns entities).map Column.header,
                rows := rowsOf (d.resolvedColumns entities) ordered } ∧
      d.scalars.foldlM (Dataset.applyScalar (bothZeroCount d entities)) table = .ok complete ∧
      Dataset.ofDescriptor d entities = .ok (complete.withAttachments d.attachment entities) := by
  unfold Descriptor.namesColumns at h
  rw [Bool.and_eq_true, List.all_eq_true] at h
  obtain ⟨hsort, hscalars⟩ := h
  have hkey : ∀ key, d.sort = some key →
      key.column ∈ (d.resolvedColumns entities).map Column.header := by
    intro key hkey
    rw [hkey, Option.all_some, decide_eq_true_eq] at hsort
    exact d.mem_resolvedColumns entities hsort
  have hrules : ∀ rule ∈ d.scalars,
      rule.column ∈ (d.resolvedColumns entities).map Column.header := by
    intro rule hrule
    exact d.mem_resolvedColumns entities (of_decide_eq_true (hscalars rule hrule))
  obtain ⟨ordered, hperm, hassemble⟩ := Dataset.assemble_spec d.evaluation hkey entities
  obtain ⟨complete, hcomplete, -, -⟩ := Dataset.foldlM_applyScalar_spec (bothZeroCount d entities)
    (d := { evaluation := d.evaluation
            columns := (d.resolvedColumns entities).map Column.header
            rows := rowsOf (d.resolvedColumns entities) ordered }) hrules
  refine ⟨ordered, _, complete, hperm, rfl, hcomplete, ?_⟩
  unfold Dataset.ofDescriptor
  rw [hassemble]
  show (d.scalars.foldlM (Dataset.applyScalar (bothZeroCount d entities)) _ >>= _) = _
  rw [hcomplete]
  rfl

/-! ## What a dataset holds -/

namespace Dataset

/-- A rule that succeeds is about a column of the table. -/
theorem column_mem_of_applyScalar {ties : String → Nat} {d d' : Dataset} {rule : ScalarRule}
    (h : d.applyScalar ties rule = .ok d') : rule.column ∈ d.columns := by
  unfold applyScalar columnValues columnIndex? at h
  obtain ⟨values, hvalues, -⟩ := map_eq_ok h
  split at hvalues
  · cases hvalues
  next i hi =>
    obtain ⟨hlt, hheader, -⟩ := List.findIdx?_eq_some_iff_getElem.1 hi
    rw [← of_decide_eq_true hheader]
    exact List.getElem_mem hlt

theorem applyScalar_fields {ties : String → Nat} {d d' : Dataset} {rule : ScalarRule}
    (h : d.applyScalar ties rule = .ok d') : d'.columns = d.columns ∧ d'.rows = d.rows := by
  obtain ⟨d'', hd'', hfields⟩ := applyScalar_spec ties (column_mem_of_applyScalar h)
  rw [h] at hd''
  cases hd''
  exact hfields

theorem foldlM_applyScalar_fields {ties : String → Nat} {rules : List ScalarRule} {d d' : Dataset}
    (h : rules.foldlM (applyScalar ties) d = .ok d') :
    d'.columns = d.columns ∧ d'.rows = d.rows := by
  induction rules generalizing d with
  | nil =>
    cases h
    exact ⟨rfl, rfl⟩
  | cons rule rest ih =>
    rw [List.foldlM_cons] at h
    obtain ⟨next, hnext, h⟩ := bind_eq_ok h
    obtain ⟨hcolumns, hrows⟩ := applyScalar_fields hnext
    obtain ⟨hcolumns', hrows'⟩ := ih h
    exact ⟨hcolumns'.trans hcolumns, hrows'.trans hrows⟩

/-- A dataset that is built is a table of its entities with scalars, then with side files. -/
theorem ofDescriptor_stages {d : Descriptor} {entities : List EntitySummary} {ds : Dataset}
    (h : ofDescriptor d entities = .ok ds) :
    ∃ ordered table complete,
      ordered.Perm entities ∧
      table = { evaluation := d.evaluation,
                columns := (d.resolvedColumns entities).map Column.header,
                rows := rowsOf (d.resolvedColumns entities) ordered } ∧
      d.scalars.foldlM (applyScalar (bothZeroCount d entities)) table = .ok complete ∧
      ds = complete.withAttachments d.attachment entities := by
  unfold ofDescriptor at h
  obtain ⟨table, htable, h⟩ := bind_eq_ok h
  obtain ⟨complete, hcomplete, h⟩ := bind_eq_ok h
  cases h
  unfold assemble at htable
  obtain ⟨ordered, hordered, htable⟩ := bind_eq_ok htable
  cases htable
  have hperm := (applySort_perm hordered).trans (List.mergeSort_perm _ _)
  exact ⟨ordered, _, complete, hperm, rfl, hcomplete, rfl⟩

/-- A dataset has the columns its descriptor asks for and the rows of its entities. -/
theorem ofDescriptor_eq_ok {d : Descriptor} {entities : List EntitySummary} {ds : Dataset}
    (h : ofDescriptor d entities = .ok ds) :
    ∃ ordered, ordered.Perm entities ∧ ds.columns = (d.resolvedColumns entities).map Column.header ∧
      ds.rows = rowsOf (d.resolvedColumns entities) ordered := by
  obtain ⟨ordered, table, complete, hperm, rfl, hcomplete, rfl⟩ := ofDescriptor_stages h
  obtain ⟨hcolumns, hrows⟩ := foldlM_applyScalar_fields hcomplete
  obtain ⟨hcolumns', hrows', -, -⟩ := withAttachments_fields d.attachment entities complete
  exact ⟨ordered, hperm, hcolumns'.trans hcolumns, hrows'.trans hrows⟩

theorem length_rows_of_ofDescriptor {d : Descriptor} {entities : List EntitySummary} {ds : Dataset}
    (h : ofDescriptor d entities = .ok ds) : ds.rows.length = entities.length := by
  obtain ⟨ordered, hperm, -, hrows⟩ := ofDescriptor_eq_ok h
  rw [hrows, rowsOf, List.length_map, List.length_zipIdx, hperm.length_eq]

/-- Every row of a dataset has a cell for every column. -/
theorem length_cells_of_ofDescriptor {d : Descriptor} {entities : List EntitySummary} {ds : Dataset}
    (h : ofDescriptor d entities = .ok ds) {row : Row} (hrow : row ∈ ds.rows) :
    row.cells.length = ds.columns.length := by
  obtain ⟨ordered, -, hcolumns, hrows⟩ := ofDescriptor_eq_ok h
  rw [hrows, rowsOf] at hrow
  obtain ⟨x, -, rfl⟩ := List.mem_map.1 hrow
  rw [hcolumns, EntitySummary.rowAt, List.length_map, List.length_map]

end Dataset

end FigureData
