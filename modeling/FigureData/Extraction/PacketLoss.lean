/-
  Extraction of transmitted and dropped packets from a replay.

  A replay is a list of flows; a flow has steps, a step has paths, and a path
  says for how many packets it stands and which hops they took.  Packets
  without hops are lost.
-/
import FigureData.Entity.Basic
import FigureData.Extraction.Reading
import FigureData.Statistics.Tally

namespace FigureData.Extraction

/-- Packets per flow and second of a replay. -/
def packetsPerSecond : Float := 100.0

/-- The packets of one path; their path is a truthy value when they arrive. -/
def readPath (path : Json) (file : String) : Except Fault Outcome := do
  match (← require path "/count" file).count? 64 with
  | none => .error (.notACount "count is not a packet count" file)
  | some count =>
    let hops ← require path "/path" file
    return if hops.isTruthy then .success count else .failure count

def readStep (step : Json) (file : String) : Except Fault (List Outcome) :=
  match step.items? with
  | none => .error (.inFile "not_an_array" "a step is not an array" file)
  | some paths => paths.mapM fun path => readPath path file

def readFlow (flow : Json) (file : String) : Except Fault (List Outcome) := do
  let steps ← requireArray flow "/paths" file
  return (← steps.mapM fun step => readStep step file).flatten

/-- Scalars of a replay with this many flows. -/
def packetScalars (counts : Tally) (flows : Nat) : SortedMap String Float :=
  let rates :=
    match counts.successRate?, counts.errorRate? with
    | some success, some error => [("transmitted_rate", success), ("dropped_rate", error)]
    | _, _ => []
  .ofList ([("transmitted", Binary64.ofNat counts.success.toNat),
      ("dropped", Binary64.ofNat counts.failure.toNat)] ++ rates ++
    [("time", Binary64.ofNat counts.total.toNat / Binary64.ofNat flows / packetsPerSecond)])

/-- The entity of a replay. -/
def readReplay (r : Record) : Except Fault Entity := do
  match (← r.document).items? with
  | none => .error (.inFile "not_an_array" "expected an array of flows" r.fileName)
  | some [] => .error (.inFile "no_flows" "the replay contains no flow" r.fileName)
  | some flows =>
    let outcomes := (← flows.mapM fun flow => readFlow flow r.fileName).flatten
    return { id := r.stem, scalars := packetScalars (.ofOutcomes outcomes) flows.length }

end FigureData.Extraction
