/-
  The complete dataset of a descriptor: table, scalars and side files.

  A descriptor without strategies shows the mean of every strategy found in
  the data, in order of first appearance.
-/
import FigureData.Dataset.Assembly

namespace FigureData

/-! ## Columns -/

/-- Appends what is not in a list yet. -/
def appendNew (labels more : List String) : List String :=
  more.foldl (fun acc label => if label ∈ acc then acc else acc ++ [label]) labels

/-- Labels of the strategies found in the data, in order of first appearance. -/
def discoveredLabels (entities : List EntitySummary) : List String :=
  (discoveryOrder entities).foldl (fun labels e => appendNew labels e.summaries.keys) []

/-- The declared columns and those that the data call for. -/
def Descriptor.resolvedColumns (d : Descriptor) (entities : List EntitySummary) : List Column :=
  if d.strategies.isEmpty then d.columns ++ (discoveredLabels entities).map Column.mean
  else d.columns

/-! ## Scalars -/

/-- How many entities tie at zero in a comparison of the descriptor. -/
def bothZeroCount (d : Descriptor) (entities : List EntitySummary) (name : String) : Nat :=
  if d.comparisons.any fun rule => rule.name = name then
    (entities.filter fun e =>
      match e.comparisons.find? name with
      | some c => decide (c.ratio.rule = .bothZero)
      | none => false).length
  else 0

namespace Dataset

def withScalar (d : Dataset) (name : String) (value : Float) : Dataset :=
  { d with scalars := d.scalars.insert name value }

/-- Records the share at or below one, the maximum when there is one, the
number of ties at zero and the drawing of the curve. -/
def withRatioSummary (d : Dataset) (ratios : List Float) (ties : Nat) : Dataset :=
  let max := maximum ratios
  let d := d.withScalar "fraction_less_equal_one" (fractionAtOrBelow ratios 1.0)
  let d := if max.isNaN then d else d.withScalar "max_ratio" max
  let d := d.withScalar "both_zero_count" (Binary64.ofNat ties)
  { d with branch := some (.ofRatios ratios) }

/-- Records the median of a column; a column without numbers has none. -/
def withMedian (d : Dataset) (name : String) (values : List Float) : Dataset :=
  if values.isEmpty then d
  else
    match percentile? (Binary64.sort values) 0.5 with
    | some x => d.withScalar name x
    | none => d

/-- Records what a scalar rule asks for; `ties` counts ties at zero. -/
def applyScalar (ties : String → Nat) (d : Dataset) (rule : ScalarRule) : Except Fault Dataset :=
  (d.columnValues rule.column).map fun values =>
    match rule with
    | .ratioSummary column => d.withRatioSummary values (ties column)
    | .fractionAtOrBelow name _ threshold =>
      d.withScalar name (fractionAtOrBelow values threshold)
    | .columnMedian name _ => d.withMedian name values
    | .columnSum name _ => d.withScalar name (Binary64.sum values)

/-! ## Side files -/

/-- The last entity with an identifier. -/
def lastWithId? (entities : List EntitySummary) (id : String) : Option EntitySummary :=
  entities.reverse.find? fun e => e.id = id

/-- The side file of an entity: the outliers of one strategy. -/
def attachmentOf (rule : AttachmentRule) (e : EntitySummary) : Attachment where
  fileName := e.id ++ rule.suffix
  values := ((e.summaries.find? rule.strategy).map Summary.outliers).getD []

/-- Side files in the order of the rows. -/
def withAttachments (rule : Option AttachmentRule) (entities : List EntitySummary) (d : Dataset) :
    Dataset :=
  match rule with
  | none => d
  | some rule =>
    { d with attachments := d.rows.filterMap fun row =>
        (lastWithId? entities row.id).map (attachmentOf rule) }

/-! ## Datasets -/

/-- The dataset that a descriptor asks for. -/
def ofDescriptor (d : Descriptor) (entities : List EntitySummary) : Except Fault Dataset := do
  let table ← assemble d.evaluation entities (d.resolvedColumns entities) d.sort
  let complete ← d.scalars.foldlM (applyScalar (bothZeroCount d entities)) table
  return complete.withAttachments d.attachment entities

end Dataset

end FigureData
