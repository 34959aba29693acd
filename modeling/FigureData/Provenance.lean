/-
  Where a dataset comes from.
-/
import FigureData.Wire.Fields
import FigureData.Wire.Value

namespace FigureData

/-- Version of the layout of a scalar summary. -/
structure LayoutVersion where
  /-- Raised when a scalar is renamed or removed. -/
  major : UInt32
  /-- Raised when a scalar is added. -/
  minor : UInt32
  deriving DecidableEq, Repr

namespace LayoutVersion

/-- The layout written by this library. -/
def current : LayoutVersion := ⟨1, 0⟩

def render (v : LayoutVersion) : String := toString v.major.toNat ++ "." ++ toString v.minor.toNat

/-- The fields read from text. -/
def wanted : Json.Selection := .named ["major", "minor"]

def encode (v : LayoutVersion) : Wire :=
  .record [("major", .count v.major.toNat), ("minor", .count v.minor.toNat)]

def decode? (j : Json) : Option LayoutVersion := do
  let fields ← Fields.read? ["major", "minor"] j
  return {
    major := UInt32.ofNat (← fields.required "major" (Json.count? 32))
    minor := UInt32.ofNat (← fields.required "minor" (Json.count? 32)) }

end LayoutVersion

/-- The circumstances of a run, recorded beside its output. -/
structure Provenance where
  /-- Folder name of the evaluation. -/
  evaluation : String
  /-- Result set that was read. -/
  source : String
  inputFiles : Nat
  droppedEntities : Nat
  /-- SHA-256 of the table. -/
  datasetHash : String
  layout : LayoutVersion
  createdAt : String
  toolVersions : SortedMap String String
  deriving DecidableEq

namespace Provenance

/-- Nothing known yet. -/
def blank : Provenance where
  evaluation := ""
  source := ""
  inputFiles := 0
  droppedEntities := 0
  datasetHash := ""
  layout := .current
  createdAt := ""
  toolVersions := ∅

/-- The fields read from text. -/
def wanted : Json.Selection :=
  .fields [("evaluation", .all), ("source", .all), ("input_files", .all),
    ("dropped_entities", .all), ("dataset_hash", .all), ("schema", LayoutVersion.wanted),
    ("created_at", .all), ("tool_versions", .all)]

def encode (p : Provenance) : Wire :=
  .record [
    ("evaluation", .text p.evaluation),
    ("source", .text p.source),
    ("input_files", .count p.inputFiles),
    ("dropped_entities", .count p.droppedEntities),
    ("dataset_hash", .text p.datasetHash),
    ("schema", p.layout.encode),
    ("created_at", .text p.createdAt),
    ("tool_versions", .textMap p.toolVersions)]

def decode? (j : Json) : Option Provenance := do
  let fields ← Fields.read? ["evaluation", "source", "input_files", "dropped_entities",
    "dataset_hash", "schema", "created_at", "tool_versions"] j
  return {
    evaluation := ← fields.required "evaluation" Json.text?
    source := ← fields.required "source" Json.text?
    inputFiles := ← fields.required "input_files" (Json.count? 64)
    droppedEntities := ← fields.required "dropped_entities" (Json.count? 64)
    datasetHash := ← fields.required "dataset_hash" Json.text?
    layout := ← fields.required "schema" LayoutVersion.decode?
    createdAt := ← fields.required "created_at" Json.text?
    toolVersions := ← fields.required "tool_versions" Json.textMap? }

end Provenance

end FigureData
