/-
  The descriptors of the ten evaluations.
-/
import FigureData.Descriptor.Basic

namespace FigureData

namespace Descriptor

/-- A descriptor that reads JSON files with these names and declares nothing else. -/
def bare (evaluation : Evaluation) (filePatterns : List String) : Descriptor where
  evaluation
  format := .json
  filePatterns
  reserved := ["plot", "table"]
  requiredKeys := []
  strategies := []
  defaultMissing := .dropEntity
  ideal := none
  entityScalars := []
  comparisons := []
  columns := []
  sort := none
  scalars := []
  attachment := none
  filePolicy := .abort
  outputFolder := "plot"
  dataFile := "data.csv"

/-- The orderings whose error rates are shown. -/
def orderings : List String := ["random_permutations", "random_router_order", "insert_before_order"]

def errorRate : Descriptor :=
  { bare .errorRate ["*"] with
    columns := orderings.map .scalar
    scalars := orderings.map fun name => .columnMedian (name ++ "_median") name
    filePolicy := .skipAndWarn }

def boxplotValues : String := "/0/random_permutations/cost/values"

/-- A box that is missing from the figure would go unnoticed, so an incomplete
sample stops the run. -/
def costBoxplot : Descriptor :=
  { bare .costBoxplot ["*.gml.json"] with
    requiredKeys := [boxplotValues, "/0/ideal_cost"]
    strategies := [{ label := "random", source := .valueArray boxplotValues, missing := .abort }]
    ideal := some "/0/ideal_cost"
    columns := [
      .id "topology",
      .label "name",
      .position "y_pos" 1.5,
      .ideal "ideal",
      .stat "lower_whisker" "random" .whiskerLow,
      .stat "lower_quartile" "random" (.quantile .p25),
      .stat "median" "random" (.quantile .p50),
      .stat "upper_quartile" "random" (.quantile .p75),
      .stat "upper_whisker" "random" .whiskerHigh]
    sort := some ⟨"topology", false⟩
    attachment := some ⟨"random", "_fliers.csv"⟩ }

/-- The random baseline may give up; its cell is then left empty. -/
def schedulingTime : Descriptor :=
  { bare .schedulingTime ["*json"] with
    requiredKeys := ["/num_commands", "/tree_result", "/strategy_result", "/random_result"]
    strategies := [
      { label := "random", source := .recordField "random_result" "time", missing := .undefined },
      { label := "tree", source := .recordField "tree_result" "time", missing := .dropEntity },
      { label := "snowcap", source := .recordField "strategy_result" "time",
        missing := .dropEntity }]
    entityScalars := [("x", "/num_commands")]
    columns := [.scalar "x", .median "random", .median "tree", .median "snowcap"]
    sort := some ⟨"x", true⟩
    filePolicy := .skipAndWarn }

/-- Its strategies, one per number of commands, are found in the data. -/
def complexity : Descriptor :=
  { bare .complexity ["r*_v*.json"] with
    requiredKeys := ["/num_commands", "/strategy_result"]
    columns := [.scalar "complexity"]
    sort := some ⟨"complexity", true⟩ }

/-- The baselines may find no valid ordering, which excludes the network; the
strategy under test must always find one. -/
def costComparison (number : UInt8) : Descriptor :=
  { bare (.costComparison number) ["*.json"] with
    requiredKeys := ["/random_result", "/strategy_result", "/baseline_mif_result",
      "/baseline_mil_result", "/ideal_cost"]
    strategies := [
      { label := "random", source := .recordField "random_result" "cost", missing := .dropEntity },
      { label := "mif", source := .recordField "baseline_mif_result" "cost",
        missing := .dropEntity },
      { label := "mil", source := .recordField "baseline_mil_result" "cost",
        missing := .dropEntity },
      { label := "snowcap", source := .recordField "strategy_result" "cost", missing := .abort }]
    ideal := some "/ideal_cost"
    comparisons := [⟨"fraction", "random", "snowcap"⟩]
    columns := [.rowIndex "pos", .id "network", .ideal "optimal", .ratio "fraction"] ++
      ["random", "mif", "mil", "snowcap"].flatMap Column.quantiles
    sort := some ⟨"random_50", true⟩
    scalars := [
      .ratioSummary "fraction",
      .fractionAtOrBelow "mid_point" "fraction" 0.5,
      .fractionAtOrBelow "zero_point" "fraction" 0.0] }

/-- Each strategy has files of its own, told apart by their suffix. -/
def stateExploration : Descriptor :=
  { bare .stateExploration ["*.gml.rand.json", "*.gml.strat.json", "*.gml.optim.json"] with
    strategies := [
      { label := "random", source := .recordField "random_result" "num_states",
        missing := .dropEntity, fileSuffix := some ".gml.rand.json" },
      { label := "optimizer", source := .recordField "strategy_result" "num_states",
        missing := .dropEntity, fileSuffix := some ".gml.optim.json" },
      { label := "strategy", source := .recordField "strategy_result" "num_states",
        missing := .dropEntity, fileSuffix := some ".gml.strat.json" }]
    columns := [.rowIndex "idx", .id "network"] ++
      ["random", "optimizer", "strategy"].flatMap Column.quantiles
    sort := some ⟨"strategy_50", true⟩ }

def classification : Descriptor :=
  { bare .classification ["raw_output"] with
    format := .text
    columns := [.id "outcome", .scalar "count", .scalar "rate"]
    scalars := [.columnSum "total" "count"]
    outputFolder := "table"
    dataFile := "table.csv" }

def packetLoss : Descriptor :=
  { bare .packetLoss ["random.json", "snowcap.json"] with
    columns := [.id "strategy", .scalar "transmitted", .scalar "dropped",
      .scalar "transmitted_rate", .scalar "dropped_rate", .scalar "time"]
    outputFolder := "table"
    dataFile := "table.csv" }

end Descriptor

/-- The descriptor of an evaluation. -/
def Evaluation.descriptor : Evaluation → Descriptor
  | .errorRate => .errorRate
  | .costBoxplot => .costBoxplot
  | .schedulingTime => .schedulingTime
  | .complexity => .complexity
  | .costComparison number => .costComparison number
  | .stateExploration => .stateExploration
  | .classification => .classification
  | .packetLoss => .packetLoss

end FigureData
