/-
  The evaluations of the benchmark, one for each figure or table.
-/
import FigureData.Fault
import FigureData.Text.Split

namespace FigureData

/-- An evaluation.  Cost comparisons exist for several setups, told apart by
their number. -/
inductive Evaluation where
  /-- Error rate of random orderings. -/
  | errorRate
  /-- Cost of random permutations per topology. -/
  | costBoxplot
  /-- Scheduling time against number of commands. -/
  | schedulingTime
  /-- Mean scheduling time against problem complexity. -/
  | complexity
  /-- Cost against the random and the insertion baselines. -/
  | costComparison (number : UInt8)
  /-- Explored states per network. -/
  | stateExploration
  /-- Confusion counts of the classifier. -/
  | classification
  /-- Transmitted against dropped packets. -/
  | packetLoss
  deriving DecidableEq, Repr, Inhabited

namespace Evaluation

/-- All evaluations of a complete run, in numeric order. -/
def all : List Evaluation :=
  [.errorRate, .costBoxplot, .schedulingTime, .complexity, .costComparison 6, .costComparison 7,
    .costComparison 8, .stateExploration, .classification, .packetLoss]

def number : Evaluation → UInt8
  | .errorRate => 1
  | .costBoxplot => 2
  | .schedulingTime => 3
  | .complexity => 5
  | .costComparison n => n
  | .stateExploration => 9
  | .classification => 10
  | .packetLoss => 11

/-- The number in decimal digits. -/
def label (e : Evaluation) : String := toString e.number.toNat

/-- Folder that holds the results of an evaluation. -/
def folder (e : Evaluation) : String := "result_" ++ e.label

end Evaluation

def Fault.unknownEvaluation (text : String) : Fault :=
  let fault : Fault :=
    { family := .config, code := "unknown_evaluation", message := "unknown evaluation " ++ text }
  fault.withHint "expected one of 1, 2, 3, 5, 6, 7, 8, 9, 10, 11"

namespace Evaluation

/-- Removes `lead` from the front as often as it stands there, at most `fuel` times. -/
def dropLeads (lead : List Char) (fuel : Nat) (cs : List Char) : List Char :=
  match fuel with
  | 0 => cs
  | fuel + 1 =>
    match Text.afterLead? lead cs with
    | some rest => dropLeads lead fuel rest
    | none => cs

/-- Reads the number of an evaluation or the name of its folder; blanks around
it and a repeated folder word do no harm. -/
def read (text : String) : Except Fault Evaluation :=
  let cs := Text.trim text.toList
  let digits := String.ofList (dropLeads "result_".toList cs.length cs)
  match all.find? fun e => e.label = digits with
  | some e => .ok e
  | none => .error (.unknownEvaluation text)

end Evaluation

end FigureData
