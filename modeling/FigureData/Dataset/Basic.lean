/-
  Datasets: an ordered table with scalars and side files.
-/
import FigureData.Dataset.Cell
import FigureData.Evaluation
import FigureData.SortedMap
import FigureData.Statistics.Distribution

namespace FigureData

/-- One entity of a dataset. -/
structure Row where
  id : String
  /-- Cells in the order of the columns. -/
  cells : List Cell
  deriving DecidableEq

/-- A side file of one entity. -/
structure Attachment where
  fileName : String
  /-- Outliers in sample order. -/
  values : List Float
  deriving DecidableEq

structure Dataset where
  evaluation : Evaluation
  /-- Headers of the columns. -/
  columns : List String
  /-- Rows in their final order. -/
  rows : List Row
  scalars : SortedMap String Float := ∅
  /-- How the curve of the ratios is drawn, when there is a column of ratios. -/
  branch : Option CurveBranch := none
  attachments : List Attachment := []
  deriving DecidableEq

def Fault.unknownColumn (header : String) : Fault :=
  let fault : Fault :=
    { family := .config, code := "unknown_column", message := "scalar refers to an unknown column" }
  fault.withContext "column" header

namespace Dataset

/-- Position of the first column with a header. -/
def columnIndex? (d : Dataset) (header : String) : Option Nat :=
  d.columns.findIdx? fun column => column = header

/-- The numbers of a column, in row order. -/
def columnValues (d : Dataset) (header : String) : Except Fault (List Float) :=
  match d.columnIndex? header with
  | none => .error (.unknownColumn header)
  | some i => .ok (d.rows.filterMap fun row => row.cells[i]?.bind Cell.number?)

end Dataset

end FigureData
