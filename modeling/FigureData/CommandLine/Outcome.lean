/-
  What a command does: the text it prints, the faults it complains about and
  the file tree it leaves.
-/
import FigureData.CommandLine.Command
import FigureData.ConfigFile
import FigureData.Json.Printer
import FigureData.Run.Report
import FigureData.Descriptor.Wire
import FigureData.Yaml.Printer

namespace FigureData

/-- How a command ends. -/
inductive ExitStatus where
  | success
  | failure
  | badUsage
  /-- The program ended at once. -/
  | aborted
  deriving DecidableEq, Repr

def ExitStatus.code : ExitStatus → Nat
  | .success => 0
  | .failure => 1
  | .badUsage => 2
  | .aborted => 101

structure CommandOutcome where
  status : ExitStatus
  /-- Text on the standard output. -/
  output : String := ""
  /-- What went wrong, in order. -/
  faults : List Fault := []

namespace CommandOutcome

def failed (fault : Fault) : CommandOutcome := { status := .failure, faults := [fault] }

def badUsage : CommandOutcome := { status := .badUsage }

def aborted : CommandOutcome := { status := .aborted }

end CommandOutcome

/-! ## Runs -/

/-- The context that options ask for: the configuration file, then what replaces its values. -/
def RunOptions.context (o : RunOptions) (t : FileTree) : Except Fault Context := do
  let base ←
    match o.configFile with
    | some path => Config.load path t
    | none => .ok {}
  let config : Config :=
    { base with
      root := o.root.getD base.root
      output := { base.output with precision := o.precision.or base.output.precision } }
  Context.make config (if o.precomputed then .precomputed else .fresh)

/-- The paths of the files that were written, each on a line of its own. -/
def RunReport.lines (r : RunReport) : String := String.join (r.written.map fun path => path ++ "\n")

/-- The outcome of several runs: it fails when one of them does. -/
def outcomeOfRuns (reports : List (Evaluation × Except Fault RunReport)) : CommandOutcome :=
  let faults := reports.filterMap fun r =>
    match r.2 with
    | .error fault => some (fault.withContext "evaluation" r.1.label)
    | .ok _ => none
  let output := reports.map fun r =>
    match r.2 with
    | .ok report => report.lines
    | .error _ => ""
  { status := if faults.isEmpty then .success else .failure, output := String.join output, faults }

/-! ## Commands -/

/-- The text that describes an evaluation. -/
def Evaluation.describe (e : Evaluation) (asYaml : Bool) : String :=
  let wire := e.descriptor.encode
  if asYaml then Yaml.write wire else wire.toJson.canonical

namespace Command

/-- Carries a command out; `now` is the time to record. -/
def execute (now : String) (t : FileTree) : Command → FileTree × CommandOutcome
  | .run text options =>
    match (Evaluation.read text).bind fun e => (options.context t).map fun ctx => (e, ctx) with
    | .error fault => (t, .failed fault)
    | .ok (e, ctx) =>
      match FigureData.run ctx e now t with
      | (t, .error (.fault fault)) => (t, .failed fault)
      | (t, .error .tooManyPlaces) => (t, .aborted)
      | (t, .ok report) => (t, { status := .success, output := report.lines })
  | .runAll options =>
    match options.context t with
    | .error fault => (t, .failed fault)
    | .ok ctx =>
      let (t, reports) := FigureData.runAll ctx now t
      (t, (reports.map outcomeOfRuns).getD .aborted)
  | .describe text asYaml =>
    match Evaluation.read text with
    | .error fault => (t, .failed fault)
    | .ok e => (t, { status := .success, output := e.describe asYaml })

end Command

/-- Carries a command line out. -/
def commandLine (now : String) (words : List String) (t : FileTree) : FileTree × CommandOutcome :=
  match Command.read? words with
  | some command => command.execute now t
  | none => (t, .badUsage)

end FigureData
