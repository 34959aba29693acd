/-
  Collecting the dataset of an evaluation from a file tree, which stays as it is.
-/
import FigureData.Config
import FigureData.Dataset.Build
import FigureData.Descriptor.Catalogue
import FigureData.Entity.Summarize
import FigureData.Provenance
import FigureData.Run.Intake

namespace FigureData

/-- The dataset of an evaluation and how it came about. -/
structure Collected where
  dataset : Dataset
  provenance : Provenance
  /-- Names of the files that were skipped. -/
  skippedFiles : List String
  /-- Identifiers of the entities that were left out. -/
  droppedEntities : List String

/-- Names the evaluation in a fault. -/
def Evaluation.inContext {α : Type} (e : Evaluation) (outcome : Except Fault α) :
    Except Fault α :=
  outcome.mapError fun fault => fault.withContext "evaluation" e.label

/-- Entities that are kept and identifiers of those that are left out, both in order. -/
structure Sifted where
  kept : List EntitySummary := []
  dropped : List String := []

/-- Summarises entities one after the other, up to a fault that stops the run. -/
def siftEntities (d : Descriptor) (sentinel : Float) : List Entity → Except Fault Sifted
  | [] => .ok {}
  | e :: rest => do
    match ← e.summarize d sentinel with
    | .kept summary =>
      let more ← siftEntities d sentinel rest
      return { more with kept := summary :: more.kept }
    | .dropped id _ =>
      let more ← siftEntities d sentinel rest
      return { more with dropped := id :: more.dropped }

/-- Where a dataset comes from, before it is exported. -/
def provenanceOf (ctx : Context) (e : Evaluation) (inputFiles droppedEntities : Nat) :
    Provenance :=
  { Provenance.blank with
    evaluation := e.folder
    source := ctx.source.name
    inputFiles
    droppedEntities }

/-- Loads, extracts, summarises and assembles an evaluation. -/
def collect (ctx : Context) (e : Evaluation) (t : FileTree) : Except Fault Collected := do
  let d := e.descriptor
  let loader ← Loader.ofDescriptor (ctx.resultFolder e) d
  let items ← loader.records t
  let start : Intake := { extractor := .ofDescriptor d }
  let intake ← e.inContext (start.takeAll d.filePolicy items)
  let entities ← e.inContext intake.extractor.collected
  let sifted ← e.inContext (siftEntities d ctx.ratioSentinel entities)
  let dataset ← Dataset.ofDescriptor d sifted.kept
  return {
    dataset
    provenance := provenanceOf ctx e intake.inputFiles sifted.dropped.length
    skippedFiles := intake.skipped
    droppedEntities := sifted.dropped }

end FigureData
