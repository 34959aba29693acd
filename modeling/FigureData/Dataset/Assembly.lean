/-
  Assembling a dataset: one row per entity, one cell per column.

  Entities are put into discovery order and then stably sorted on the sort
  column, so entities with equal cells there stay in discovery order.  Columns
  that show the position of a row are filled once the order is final.
-/
import FigureData.Dataset.Basic
import FigureData.Descriptor.Basic
import FigureData.Entity.Basic

namespace FigureData

/-! ## Cells -/

/-- The text without ASCII digits. -/
def withoutDigits (text : String) : String :=
  String.ofList (text.toList.filter fun c => !c.isDigit)

namespace EntitySummary

/-- A statistic of one strategy, when the entity has it. -/
def statistic? (e : EntitySummary) (strategy : String) : Statistic → Option Float
  | .mean => e.means.find? strategy
  | .quantile p => (e.summaries.find? strategy).map fun s => s.quantile p
  | .whiskerLow => (e.summaries.find? strategy).map Summary.whiskerLow
  | .whiskerHigh => (e.summaries.find? strategy).map Summary.whiskerHigh

/-- The cell of an entity in a column, as far as it does not depend on the
position of the row. -/
def cell (e : EntitySummary) : Column → Cell
  | .id _ => .text e.id
  | .label _ => .text (withoutDigits e.id)
  | .ideal _ => .ofOption e.ideal
  | .scalar header => .ofOption (e.scalars.find? header)
  | .stat _ strategy statistic => .ofOption (e.statistic? strategy statistic)
  | .ratio header => .ofOption ((e.comparisons.find? header).map fun c => c.ratio.value)
  | .rowIndex _ | .position _ _ => .missing

/-- The cell of an entity in a column, at its position. -/
def cellAt (e : EntitySummary) (index : Nat) : Column → Cell
  | .rowIndex _ => .number (Binary64.ofNat index)
  | .position _ step => .number (Binary64.ofNat index * step)
  | column => e.cell column

/-- The row of an entity at its position. -/
def rowAt (e : EntitySummary) (columns : List Column) (index : Nat) : Row :=
  ⟨e.id, columns.map (e.cellAt index)⟩

end EntitySummary

/-! ## Order -/

def Fault.unknownSortColumn (column : String) : Fault :=
  let fault : Fault :=
    { family := .config, code := "unknown_sort_column", message := "sort key is not a column" }
  fault.withContext "column" column

/-- Entities in the order they were discovered. -/
def discoveryOrder (entities : List EntitySummary) : List EntitySummary :=
  entities.mergeSort fun a b => decide (a.discovery ≤ b.discovery)

/-- Entities sorted stably on their cells in a column. -/
def sortOn (column : Column) (ascending : Bool) (entities : List EntitySummary) :
    List EntitySummary :=
  entities.mergeSort fun a b => Cell.le ascending (a.cell column) (b.cell column)

/-- Sorts on the first column that has the header of the key. -/
def applySort (columns : List Column) (sort : Option SortKey) (entities : List EntitySummary) :
    Except Fault (List EntitySummary) :=
  match sort with
  | none => .ok entities
  | some key =>
    match columns.find? fun c => c.header = key.column with
    | some column => .ok (sortOn column key.ascending entities)
    | none => .error (.unknownSortColumn key.column)

/-! ## Assembly -/

/-- The table of the entities, without scalars and side files. -/
def Dataset.assemble (evaluation : Evaluation) (entities : List EntitySummary)
    (columns : List Column) (sort : Option SortKey) : Except Fault Dataset := do
  let ordered ← applySort columns sort (discoveryOrder entities)
  return {
    evaluation
    columns := columns.map Column.header
    rows := ordered.zipIdx.map fun (e, index) => e.rowAt columns index }

end FigureData
