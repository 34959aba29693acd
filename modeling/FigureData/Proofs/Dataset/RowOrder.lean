/-
  The rows of an assembled table: none lost, none made twice, each in its place.

  Entities carry their place in the input as a tag while they are sorted, so that two entities
  that are alike in everything stay apart.  A stable sort of a list that is already in order
  keeps that order among elements the sort does not tell apart; used twice, for discovery and
  for the sort column, this gives the order of the rows.

  Proved:
  * `pairwise_mergeSort_of_pairwise`: a merge sort keeps an order of its input among equals.
  * `pairwise_sortTagged`: the entities are put in the order of their rows.
  * `Dataset.assemble_arranges`: assembling succeeds where the sort key names a header, and the
    table is an arrangement of the entities.
-/
import FigureData.Proofs.Dataset.Build
import FigureData.Proofs.Dataset.CellOrder

namespace FigureData

/-! ## Stable sorting -/

section Stable

variable {α : Type} {R : α → α → Prop}

theorem pairwise_zipIdx_mergeSort_ne (le : α → α → Bool) (l : List α) :
    (l.zipIdx.mergeSort (List.zipIdxLE le)).Pairwise fun a b => a.2 ≠ b.2 := by
  have hperm : (l.zipIdx.mergeSort (List.zipIdxLE le)).Perm l.zipIdx := List.mergeSort_perm _ _
  rw [hperm.pairwise_iff fun h => Ne.symm h, ← List.pairwise_map, List.zipIdx_map_snd]
  exact List.nodup_range'

/-- A merge sort keeps an order of its input among elements it does not tell apart. -/
theorem pairwise_mergeSort_of_pairwise (le : α → α → Bool)
    (trans : ∀ a b c, le a b = true → le b c = true → le a c = true)
    (total : ∀ a b, (le a b || le b a) = true) {l : List α} (h : l.Pairwise R) :
    (l.mergeSort le).Pairwise fun a b => le a b = true ∧ (le b a = true → R a b) := by
  rw [← List.mergeSort_zipIdx, List.pairwise_map]
  have hsorted := List.pairwise_mergeSort (List.zipIdxLE_trans trans) (List.zipIdxLE_total total)
    l.zipIdx
  have hboth := hsorted.and (pairwise_zipIdx_mergeSort_ne le l)
  refine hboth.imp_of_mem fun {a b} ha hb hab => ?_
  have hmem : ∀ x ∈ l.zipIdx.mergeSort (List.zipIdxLE le), l[x.2]? = some x.1 := by
    intro x hx
    exact List.mem_zipIdx_iff_getElem?.1 (List.mem_mergeSort.1 hx)
  obtain ⟨hle, hne⟩ := hab
  unfold List.zipIdxLE at hle
  split_ifs at hle with hab hba
  · refine ⟨hab, fun _ => ?_⟩
    have hlt : a.2 < b.2 := Nat.lt_of_le_of_ne (of_decide_eq_true hle) hne
    obtain ⟨i, hi⟩ := List.getElem?_eq_some_iff.1 (hmem a ha)
    obtain ⟨j, hj⟩ := List.getElem?_eq_some_iff.1 (hmem b hb)
    have hR := List.pairwise_iff_getElem.1 h a.2 b.2 i j hlt
    rwa [hi, hj] at hR
  · exact ⟨hab, fun hba' => absurd hba' hba⟩

end Stable

/-! ## The order of rows -/

/-- An entity with its place in the input. -/
abbrev Tagged := EntitySummary × Nat

/-- Discovered earlier, or as early and earlier in the input. -/
def discoveredBefore (a b : Tagged) : Prop :=
  a.1.discovery < b.1.discovery ∨ a.1.discovery = b.1.discovery ∧ a.2 < b.2

/-- The cell of an entity in the first column with the header of the key. -/
def sortCell (columns : List Column) (key : SortKey) (e : EntitySummary) : Cell :=
  match columns.find? fun c => c.header = key.column with
  | some column => e.cell column
  | none => .missing

/-- The order of rows: by the sort cell, if there is a key, then by discovery. -/
def standsBefore (columns : List Column) : Option SortKey → Tagged → Tagged → Prop
  | none, a, b => discoveredBefore a b
  | some key, a, b =>
    (sortCell columns key a.1).Precedes key.ascending (sortCell columns key b.1) ∨
      sortCell columns key a.1 = sortCell columns key b.1 ∧ discoveredBefore a b

theorem map_fst_mergeSort {α β : Type} (le : α → α → Bool) (l : List (α × β)) :
    (l.mergeSort fun a b => le a.1 b.1).map Prod.fst = (l.map Prod.fst).mergeSort le :=
  List.map_mergeSort fun _ _ _ _ => rfl

/-- Tagged entities in discovery order. -/
def discoveryTagged (entities : List EntitySummary) : List Tagged :=
  entities.zipIdx.mergeSort fun a b => decide (a.1.discovery ≤ b.1.discovery)

theorem map_fst_discoveryTagged (entities : List EntitySummary) :
    (discoveryTagged entities).map Prod.fst = discoveryOrder entities := by
  unfold discoveryTagged discoveryOrder
  rw [map_fst_mergeSort fun a b : EntitySummary => decide (a.discovery ≤ b.discovery), List.zipIdx_map_fst]

theorem pairwise_discoveryTagged (entities : List EntitySummary) :
    (discoveryTagged entities).Pairwise discoveredBefore := by
  have hplaces : entities.zipIdx.Pairwise fun a b => a.2 < b.2 := by
    rw [← List.pairwise_map, List.zipIdx_map_snd]
    exact List.pairwise_lt_range'
  have hsorted := pairwise_mergeSort_of_pairwise
    (fun a b : Tagged => decide (a.1.discovery ≤ b.1.discovery))
    (fun a b c hab hbc => by simp only [decide_eq_true_eq] at *; omega)
    (fun a b => by simp only [Bool.or_eq_true, decide_eq_true_eq]; omega) hplaces
  refine hsorted.imp fun {a b} h => ?_
  obtain ⟨hle, htie⟩ := h
  simp only [decide_eq_true_eq] at hle htie
  unfold discoveredBefore
  omega

/-- Tagged entities in the order of their rows. -/
def sortTagged (columns : List Column) (sort : Option SortKey) (entities : List EntitySummary) :
    List Tagged :=
  match sort with
  | none => discoveryTagged entities
  | some key => (discoveryTagged entities).mergeSort fun a b =>
      Cell.le key.ascending (sortCell columns key a.1) (sortCell columns key b.1)

theorem sortTagged_perm (columns : List Column) (sort : Option SortKey)
    (entities : List EntitySummary) :
    (sortTagged columns sort entities).Perm entities.zipIdx := by
  unfold sortTagged
  split
  · exact List.mergeSort_perm _ _
  · exact (List.mergeSort_perm _ _).trans (List.mergeSort_perm _ _)

/-- The entities are put in the order of their rows: the second sort keeps the order of the
first among entities with equal cells. -/
theorem pairwise_sortTagged (columns : List Column) (sort : Option SortKey)
    (entities : List EntitySummary) :
    (sortTagged columns sort entities).Pairwise (standsBefore columns sort) := by
  have hfirst := pairwise_discoveryTagged entities
  unfold sortTagged
  split
  · exact hfirst
  next key =>
    have hsecond := pairwise_mergeSort_of_pairwise
      (fun a b : Tagged =>
        Cell.le key.ascending (sortCell columns key a.1) (sortCell columns key b.1))
      (fun _ _ _ => Cell.le_trans _ _ _ _) (fun _ _ => Cell.le_total _ _ _) hfirst
    refine hsecond.imp fun {a b} h => ?_
    obtain ⟨hle, htie⟩ := h
    rcases Cell.le_iff.1 hle with heq | hprecedes
    · exact .inr ⟨heq, htie (Cell.le_iff.2 (.inl heq.symm))⟩
    · exact .inl hprecedes

theorem applySort_eq {columns : List Column} {sort : Option SortKey}
    (h : ∀ key, sort = some key → key.column ∈ columns.map Column.header)
    (entities : List EntitySummary) :
    applySort columns sort (discoveryOrder entities) =
      .ok ((sortTagged columns sort entities).map Prod.fst) := by
  unfold applySort sortTagged
  cases sort with
  | none => rw [map_fst_discoveryTagged]
  | some key =>
    obtain ⟨found, hfound⟩ := exists_find?_header (h key rfl)
    simp only [hfound, sortCell, sortOn]
    rw [map_fst_mergeSort fun a b : EntitySummary =>
      Cell.le key.ascending (a.cell found) (b.cell found), map_fst_discoveryTagged]

/-! ## Rows -/

/-- Is the column filled from the position of the row? -/
def Column.isPositional : Column → Bool
  | .rowIndex _ | .position _ _ => true
  | _ => false

/-- The row of an entity at a position of the table, cell by cell. -/
structure IsRowOf (columns : List Column) (e : EntitySummary) (index : Nat) (row : Row) : Prop where
  id : row.id = e.id
  length : row.cells.length = columns.length
  rowIndex : ∀ (j : Nat) (header : String), columns[j]? = some (.rowIndex header) →
    row.cells[j]? = some (.number (Binary64.ofNat index))
  position : ∀ (j : Nat) (header : String) (step : Float),
    columns[j]? = some (.position header step) →
    row.cells[j]? = some (.number (Binary64.ofNat index * step))
  other : ∀ (j : Nat) (column : Column), columns[j]? = some column →
    column.isPositional = false → row.cells[j]? = some (e.cell column)

/-- The table has one row per entity, in the order of `order`. -/
structure IsArrangement (columns : List Column) (sort : Option SortKey)
    (entities : List EntitySummary) (order : List Tagged) (d : Dataset) : Prop where
  headers : d.columns = columns.map Column.header
  perm : order.Perm entities.zipIdx
  ordered : order.Pairwise (standsBefore columns sort)
  length : d.rows.length = order.length
  rows : ∀ (i : Nat) (e : EntitySummary) (place : Nat), order[i]? = some (e, place) →
    ∃ row, d.rows[i]? = some row ∧ IsRowOf columns e i row

theorem EntitySummary.cellAt_of_not_positional {column : Column} (h : column.isPositional = false)
    (e : EntitySummary) (index : Nat) : e.cellAt index column = e.cell column := by
  unfold cellAt
  cases column <;> first | rfl | simp [Column.isPositional] at h

theorem isRowOf_rowAt (columns : List Column) (e : EntitySummary) (index : Nat) :
    IsRowOf columns e index (e.rowAt columns index) where
  id := rfl
  length := List.length_map _
  rowIndex := by
    intro j header hj
    simp [EntitySummary.rowAt, hj, EntitySummary.cellAt]
  position := by
    intro j header step hj
    simp [EntitySummary.rowAt, hj, EntitySummary.cellAt]
  other := by
    intro j column hj hpositional
    simp [EntitySummary.rowAt, hj, e.cellAt_of_not_positional hpositional]

/-- Assembling succeeds where the sort key names a header, and neither loses, doubles nor
misplaces an entity. -/
theorem Dataset.assemble_arranges (evaluation : Evaluation) {columns : List Column}
    {sort : Option SortKey}
    (h : ∀ key, sort = some key → key.column ∈ columns.map Column.header)
    (entities : List EntitySummary) :
    ∃ d order, assemble evaluation entities columns sort = .ok d ∧
      IsArrangement columns sort entities order d := by
  let order := sortTagged columns sort entities
  refine ⟨{ evaluation
            columns := columns.map Column.header
            rows := rowsOf columns (order.map Prod.fst) }, order, ?_, ?_⟩
  · unfold assemble
    rw [applySort_eq h]
    rfl
  refine ⟨rfl, sortTagged_perm columns sort entities, pairwise_sortTagged columns sort entities,
    by simp [rowsOf], ?_⟩
  intro i e place hi
  refine ⟨e.rowAt columns i, ?_, isRowOf_rowAt columns e i⟩
  simp [rowsOf, List.getElem?_zipIdx, hi]

/-- An entity with an identifier, a place of discovery and perhaps a value to sort on. -/
def valuedEntity (id : String) (discovery : Nat) (value : Option Float) : EntitySummary :=
  { id, discovery, ideal := value, summaries := ∅, means := ∅, scalars := ∅, comparisons := ∅ }

/-- Two entities that tie, one above them and one without a value. -/
def tiedEntities : List EntitySummary :=
  [valuedEntity "A" 0 none, valuedEntity "B" 2 (some 1), valuedEntity "C" 1 (some 1),
    valuedEntity "D" 3 (some 2)]

theorem tiedEntities_arranged :
    ∃ d order,
      Dataset.assemble (.costComparison 6) tiedEntities
          [.id "net", .ideal "value", .rowIndex "place"] (some ⟨"value", false⟩) = .ok d ∧
        IsArrangement [.id "net", .ideal "value", .rowIndex "place"] (some ⟨"value", false⟩)
          tiedEntities order d :=
  Dataset.assemble_arranges (.costComparison 6) (by simp [Column.header]) tiedEntities

end FigureData
