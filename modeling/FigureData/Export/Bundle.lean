/-
  The files of a dataset: table, summary and side files, not yet written.

  The result depends on the dataset and the options alone.  Two things can go
  wrong: a row whose cells do not match the columns is a fault, and a number to
  be written with too many decimals ends the program.
-/
import FigureData.Config
import FigureData.Csv.Writer
import FigureData.Dataset.Basic
import FigureData.Export.Summary
import FigureData.Json.Printer
import FigureData.Sha256

namespace FigureData

/-! ## Options -/

/-- How a dataset is written. -/
structure ExportOptions where
  /-- The byte between two fields. -/
  delimiter : UInt8 := 0x2C
  /-- Fixed count of decimals; shortest digits without one. -/
  precision : Option Nat := none
  /-- File name of the table. -/
  dataFile : String := "data.csv"
  provenance : Provenance := .blank
  deriving DecidableEq

/-- Options for a configured form; a valid delimiter is a single byte. -/
def ExportOptions.ofForm (form : OutputForm) (dataFile : String) (provenance : Provenance) :
    ExportOptions where
  delimiter := UInt8.ofNat form.delimiter.toNat
  precision := form.precision
  dataFile
  provenance

/-! ## Bundles -/

/-- Name of the file with the summary. -/
def summaryFile : String := "summary.json"

/-- Files of one evaluation. -/
structure Bundle where
  /-- File name of the table. -/
  dataFile : String
  table : Bytes
  summary : ScalarSummary
  /-- Names and contents of the side files. -/
  attachments : List (String × Bytes)
  deriving DecidableEq

namespace Bundle

/-- Content of the file with the summary. -/
def summaryBytes (b : Bundle) : Bytes := Bytes.ofText b.summary.encode.toJson.canonical

/-- All files in the order they are written. -/
def files (b : Bundle) : List (String × Bytes) :=
  (b.dataFile, b.table) :: (summaryFile, b.summaryBytes) :: b.attachments

end Bundle

def Fault.raggedRow (row : Row) (expected : Nat) : Fault :=
  let fault : Fault :=
    { family := .exporting, code := "csv_row"
      message := "found record with " ++ toString row.cells.length ++
        " fields, but the previous record has " ++ toString expected ++ " fields" }
  fault.withContext "entity" row.id

namespace Dataset

/-- The fields of the header. -/
def headerFields (d : Dataset) : List Bytes := d.columns.map Bytes.ofText

/-- The fields of a row. -/
def rowFields? (precision : Option Nat) (row : Row) : Option (List Bytes) :=
  row.cells.mapM fun cell => (cell.render? precision).map Bytes.ofText

/-- The records after the header; every row needs a cell for every column.  The
cells of a row are written before they are counted. -/
def writeRows (d : Dataset) (options : ExportOptions) : List Row → Except Stop Bytes
  | [] => .ok []
  | row :: rest =>
    match rowFields? options.precision row with
    | none => .error .tooManyPlaces
    | some fields =>
      if row.cells.length = d.columns.length then
        (writeRows d options rest).map fun more =>
          Csv.writeRecord options.delimiter fields ++ more
      else .error (.fault (.raggedRow row d.columns.length))

/-- The table with its header. -/
def writeTable (d : Dataset) (options : ExportOptions) : Except Stop Bytes :=
  (writeRows d options d.rows).map fun rows =>
    Csv.writeRecord options.delimiter d.headerFields ++ rows

/-- One value a line. -/
def writeValues? (precision : Option Nat) (values : List Float) : Option Bytes :=
  (values.mapM (writeNumber? precision)).map fun texts =>
    Bytes.ofText (String.join (texts.map (· ++ "\n")))

/-- The side files with their names. -/
def writeAttachments (d : Dataset) (precision : Option Nat) :
    Except Stop (List (String × Bytes)) :=
  d.attachments.mapM fun a =>
    match writeValues? precision a.values with
    | some content => .ok (a.fileName, content)
    | none => .error .tooManyPlaces

/-- The summary of a dataset whose table has these bytes. -/
def summaryFor (d : Dataset) (table : Bytes) (provenance : Provenance) : ScalarSummary where
  columns := d.columns
  rows := d.rows.length
  scalars := d.scalars
  branch := d.branch
  provenance := { provenance with
    datasetHash := Bytes.hex (Sha256.digest table)
    layout := .current
    toolVersions := provenance.toolVersions.insert "recon-report" "0.1.0" }

/-- The files of a dataset. -/
def bundle (d : Dataset) (options : ExportOptions) : Except Stop Bundle := do
  let table ← d.writeTable options
  return {
    dataFile := options.dataFile
    table
    summary := d.summaryFor table options.provenance
    attachments := ← d.writeAttachments options.precision }

end Dataset

end FigureData
