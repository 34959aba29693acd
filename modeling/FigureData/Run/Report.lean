/-
  Running evaluations: collecting a dataset and replacing its output folder.

  The file tree changes only once the files of the dataset are complete, so
  whatever goes wrong before that leaves earlier output in place.
-/
import FigureData.Export.Output
import FigureData.Run.Collected

namespace FigureData

/-- What a run did. -/
structure RunReport where
  evaluation : Evaluation
  /-- The folder that was replaced. -/
  outputFolder : String
  /-- Paths of the files written, in order. -/
  written : List String
  summary : ScalarSummary
  skippedFiles : List String
  droppedEntities : List String

/-- The folder that an evaluation writes to. -/
def Context.outputFolder (ctx : Context) (e : Evaluation) : String :=
  Path.join (ctx.resultFolder e) e.descriptor.outputFolder

/-- Everything about a run that is settled before the first file is written. -/
structure Prepared where
  collected : Collected
  bundle : Bundle

/-- Collects a dataset and lays out its files; `now` is the time to record. -/
def prepare (ctx : Context) (e : Evaluation) (now : String) (t : FileTree) :
    Except Stop Prepared := do
  let collected ← (collect ctx e t).mapError .fault
  let options := ExportOptions.ofForm ctx.output e.descriptor.dataFile
    { collected.provenance with createdAt := now }
  return ⟨collected, ← collected.dataset.bundle options⟩

/-- The report of a run that wrote files to these paths. -/
def Prepared.report (p : Prepared) (ctx : Context) (e : Evaluation) (paths : List String) :
    RunReport where
  evaluation := e
  outputFolder := ctx.outputFolder e
  written := paths
  summary := p.bundle.summary
  skippedFiles := p.collected.skippedFiles
  droppedEntities := p.collected.droppedEntities

/-- Runs one evaluation. -/
def run (ctx : Context) (e : Evaluation) (now : String) (t : FileTree) :
    FileTree × Except Stop RunReport :=
  match prepare ctx e now t with
  | .error stop => (t, .error stop)
  | .ok prepared =>
    let (t, written) := prepared.bundle.writeTo (ctx.outputFolder e) t
    (t, (written.map (prepared.report ctx e)).mapError .fault)

/-- Runs evaluations one after the other; a fault in one does not stop the
next, but the end of the program does, and leaves no reports. -/
def runEach (ctx : Context) (now : String) (t : FileTree) :
    List Evaluation → FileTree × Option (List (Evaluation × Except Fault RunReport))
  | [] => (t, some [])
  | e :: rest =>
    match run ctx e now t with
    | (t, .error .tooManyPlaces) => (t, none)
    | (t, .error (.fault fault)) =>
      let (t, more) := runEach ctx now t rest
      (t, more.map ((e, .error fault) :: ·))
    | (t, .ok report) =>
      let (t, more) := runEach ctx now t rest
      (t, more.map ((e, .ok report) :: ·))

/-- Runs every evaluation in numeric order. -/
def runAll (ctx : Context) (now : String) (t : FileTree) :
    FileTree × Option (List (Evaluation × Except Fault RunReport)) :=
  runEach ctx now t Evaluation.all

end FigureData
