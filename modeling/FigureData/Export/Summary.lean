/-
  The summary that is written beside a table: its shape, the scalars of the
  dataset and where it comes from.
-/
import FigureData.Bytes
import FigureData.Json.Reader
import FigureData.Provenance
import FigureData.Statistics.Distribution
import FigureData.Wire.Branch

namespace FigureData

/-- What the drawing of a figure needs besides the table. -/
structure ScalarSummary where
  /-- Headers of the table. -/
  columns : List String
  /-- Number of rows. -/
  rows : Nat
  scalars : SortedMap String Float
  branch : Option CurveBranch
  provenance : Provenance
  deriving DecidableEq

namespace ScalarSummary

/-- The fields read from text. -/
def wanted : Json.Selection :=
  .fields [("columns", .all), ("rows", .all), ("scalars", .all), ("branch", .all),
    ("provenance", Provenance.wanted)]

def encode (s : ScalarSummary) : Wire :=
  .record (
    [("columns", .texts s.columns),
      ("rows", .count s.rows),
      ("scalars", .floatMap s.scalars)] ++
    Wire.optionalField "branch" CurveBranch.encode s.branch ++
    [("provenance", s.provenance.encode)])

def decode? (j : Json) : Option ScalarSummary := do
  let fields ← Fields.read? ["columns", "rows", "scalars", "branch", "provenance"] j
  return {
    columns := ← fields.required "columns" (Json.list? Json.text?)
    rows := ← fields.required "rows" (Json.count? 64)
    scalars := ← fields.required "scalars" Json.floatMap?
    branch := ← fields.optional "branch" CurveBranch.decode?
    provenance := ← fields.required "provenance" Provenance.decode? }

/-- Reads the content of a file as a summary. -/
def read? (content : Bytes) : Option ScalarSummary :=
  (Bytes.text? content).bind fun text => (Json.readSelected? wanted text).bind decode?

end ScalarSummary

end FigureData
