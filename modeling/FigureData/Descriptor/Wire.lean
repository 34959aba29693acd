/-
  Descriptors and their parts as wire values, and reading them back.

  Every type has an `encode` and a `decode?`; fields without a value are left
  out when written.
-/
import FigureData.Descriptor.Basic
import FigureData.Wire.Fields
import FigureData.Wire.Value

namespace FigureData

/-! ## Choices without content -/

/-- The member of a list that has a name. -/
def byName? {α : Type} (choices : List α) (name : α → String) (text : String) : Option α :=
  choices.find? fun x => name x = text

namespace FilePolicy

def name : FilePolicy → String
  | .skipAndWarn => "skip-and-warn"
  | .abort => "abort"

def encode (p : FilePolicy) : Wire := .text p.name

def decode? (j : Json) : Option FilePolicy :=
  j.unitVariant?.bind (byName? [.skipAndWarn, .abort] name)

end FilePolicy

namespace MissingPolicy

def name : MissingPolicy → String
  | .dropEntity => "drop-entity"
  | .abort => "abort"
  | .undefined => "undefined"

def encode (p : MissingPolicy) : Wire := .text p.name

def decode? (j : Json) : Option MissingPolicy :=
  j.unitVariant?.bind (byName? [.dropEntity, .abort, .undefined] name)

end MissingPolicy

namespace InputFormat

def name : InputFormat → String
  | .json => "json"
  | .text => "text"

def encode (f : InputFormat) : Wire := .text f.name

def decode? (j : Json) : Option InputFormat := j.unitVariant?.bind (byName? [.json, .text] name)

end InputFormat

namespace Probability

def encode (p : Probability) : Wire := .text p.name

def decode? (j : Json) : Option Probability := j.innerUnitVariant?.bind ofName?

end Probability

/-! ## Evaluations -/

namespace Evaluation

def encode : Evaluation → Wire
  | .errorRate => .text "error-rate"
  | .costBoxplot => .text "cost-boxplot"
  | .schedulingTime => .text "scheduling-time"
  | .complexity => .text "complexity"
  | .costComparison n => .variant "cost-comparison" (.count n.toNat)
  | .stateExploration => .text "state-exploration"
  | .classification => .text "classification"
  | .packetLoss => .text "packet-loss"

/-- The evaluation that a name without content stands for. -/
def ofUnitName? : String → Option Evaluation
  | "error-rate" => some .errorRate
  | "cost-boxplot" => some .costBoxplot
  | "scheduling-time" => some .schedulingTime
  | "complexity" => some .complexity
  | "state-exploration" => some .stateExploration
  | "classification" => some .classification
  | "packet-loss" => some .packetLoss
  | _ => none

def decode? (j : Json) : Option Evaluation :=
  match j.variant? with
  | some ("cost-comparison", some content) =>
    (content.count? 8).map fun n => .costComparison (UInt8.ofNat n)
  | _ => j.unitVariant?.bind ofUnitName?

end Evaluation

/-! ## Strategies -/

namespace SampleSource

def encode : SampleSource → Wire
  | .recordField key field =>
    .variant "record-field" (.record [("key", .text key), ("field", .text field)])
  | .valueArray pointer => .variant "value-array" (.record [("pointer", .text pointer)])

def decode? (j : Json) : Option SampleSource := do
  match ← j.variant? with
  | ("record-field", some content) =>
    let fields ← Fields.readNamed? ["key", "field"] content
    return .recordField (← fields.required "key" Json.text?) (← fields.required "field" Json.text?)
  | ("value-array", some content) =>
    let fields ← Fields.readNamed? ["pointer"] content
    return .valueArray (← fields.required "pointer" Json.text?)
  | _ => none

end SampleSource

namespace Strategy

def encode (s : Strategy) : Wire :=
  .record ([("label", .text s.label), ("source", s.source.encode), ("missing", s.missing.encode)] ++
    Wire.optionalField "file_suffix" .text s.fileSuffix)

def decode? (j : Json) : Option Strategy := do
  let fields ← Fields.read? ["label", "source", "missing", "file_suffix"] j
  return {
    label := ← fields.required "label" Json.text?
    source := ← fields.required "source" SampleSource.decode?
    missing := ← fields.required "missing" MissingPolicy.decode?
    fileSuffix := ← fields.optional "file_suffix" Json.text? }

end Strategy

/-! ## Columns -/

namespace Statistic

def encode : Statistic → Wire
  | .quantile p => .variant "quantile" p.encode
  | .whiskerLow => .text "whisker-low"
  | .whiskerHigh => .text "whisker-high"
  | .mean => .text "mean"

def ofUnitName? : String → Option Statistic
  | "whisker-low" => some .whiskerLow
  | "whisker-high" => some .whiskerHigh
  | "mean" => some .mean
  | _ => none

def decode? (j : Json) : Option Statistic :=
  match j.variant? with
  | some ("quantile", some content) => (Probability.decode? content).map .quantile
  | _ => j.innerUnitVariant?.bind ofUnitName?

end Statistic

namespace Column

/-- A record that names its kind of column first. -/
def encodeAs (source header : String) (more : List (String × Wire)) : Wire :=
  .record (("source", .text source) :: ("header", .text header) :: more)

def encode : Column → Wire
  | .id h => encodeAs "id" h []
  | .label h => encodeAs "label" h []
  | .ideal h => encodeAs "ideal" h []
  | .scalar h => encodeAs "scalar" h []
  | .stat h s statistic =>
    encodeAs "stat" h [("strategy", .text s), ("stat", statistic.encode)]
  | .ratio h => encodeAs "ratio" h []
  | .rowIndex h => encodeAs "row-index" h []
  | .position h step => encodeAs "position" h [("step", .float step)]

/-- A kind of column that has only a header. -/
def decodeHeader? (make : String → Column) (content : Json) : Option Column := do
  let fields ← Fields.read? ["header"] content
  return make (← fields.required "header" Json.text?)

def decode? (j : Json) : Option Column := do
  match ← j.tagged? "source" with
  | ("id", content) => decodeHeader? .id content
  | ("label", content) => decodeHeader? .label content
  | ("ideal", content) => decodeHeader? .ideal content
  | ("scalar", content) => decodeHeader? .scalar content
  | ("ratio", content) => decodeHeader? .ratio content
  | ("row-index", content) => decodeHeader? .rowIndex content
  | ("stat", content) =>
    let fields ← Fields.read? ["header", "strategy", "stat"] content
    return .stat (← fields.required "header" Json.text?)
      (← fields.required "strategy" Json.text?) (← fields.required "stat" Statistic.decode?)
  | ("position", content) =>
    let fields ← Fields.read? ["header", "step"] content
    return .position (← fields.required "header" Json.text?)
      (← fields.required "step" Json.number?)
  | _ => none

end Column

namespace ComparisonRule

def encode (r : ComparisonRule) : Wire :=
  .record [("name", .text r.name), ("baseline", .text r.baseline), ("candidate", .text r.candidate)]

def decode? (j : Json) : Option ComparisonRule := do
  let fields ← Fields.read? ["name", "baseline", "candidate"] j
  return {
    name := ← fields.required "name" Json.text?
    baseline := ← fields.required "baseline" Json.text?
    candidate := ← fields.required "candidate" Json.text? }

end ComparisonRule

namespace SortKey

def encode (k : SortKey) : Wire :=
  .record [("column", .text k.column), ("ascending", .bool k.ascending)]

def decode? (j : Json) : Option SortKey := do
  let fields ← Fields.read? ["column", "ascending"] j
  return {
    column := ← fields.required "column" Json.text?
    ascending := ← fields.required "ascending" Json.bool? }

end SortKey

/-! ## Scalars and attachments -/

namespace ScalarRule

/-- A scalar rule with a name of its own. -/
def encodeAs (scalar name column : String) (more : List (String × Wire)) : Wire :=
  .record (("scalar", .text scalar) :: ("name", .text name) :: ("column", .text column) :: more)

def encode : ScalarRule → Wire
  | .ratioSummary column =>
    .record [("scalar", .text "ratio-summary"), ("column", .text column)]
  | .fractionAtOrBelow name column threshold =>
    encodeAs "fraction-at-or-below" name column [("threshold", .float threshold)]
  | .columnMedian name column => encodeAs "column-median" name column []
  | .columnSum name column => encodeAs "column-sum" name column []

/-- A kind of scalar that has a name and a column. -/
def decodeNamed? (make : String → String → ScalarRule) (content : Json) : Option ScalarRule := do
  let fields ← Fields.read? ["name", "column"] content
  return make (← fields.required "name" Json.text?) (← fields.required "column" Json.text?)

def decode? (j : Json) : Option ScalarRule := do
  match ← j.tagged? "scalar" with
  | ("ratio-summary", content) =>
    let fields ← Fields.read? ["column"] content
    return .ratioSummary (← fields.required "column" Json.text?)
  | ("fraction-at-or-below", content) =>
    let fields ← Fields.read? ["name", "column", "threshold"] content
    return .fractionAtOrBelow (← fields.required "name" Json.text?)
      (← fields.required "column" Json.text?) (← fields.required "threshold" Json.number?)
  | ("column-median", content) => decodeNamed? .columnMedian content
  | ("column-sum", content) => decodeNamed? .columnSum content
  | _ => none

end ScalarRule

namespace AttachmentRule

def encode (r : AttachmentRule) : Wire :=
  .record [("strategy", .text r.strategy), ("suffix", .text r.suffix)]

def decode? (j : Json) : Option AttachmentRule := do
  let fields ← Fields.read? ["strategy", "suffix"] j
  return {
    strategy := ← fields.required "strategy" Json.text?
    suffix := ← fields.required "suffix" Json.text? }

end AttachmentRule

/-! ## Descriptors -/

namespace Descriptor

/-- A pair of texts as a list of two. -/
def encodePair (p : String × String) : Wire := .list [.text p.1, .text p.2]

def encode (d : Descriptor) : Wire :=
  .record (
    [("kind", d.evaluation.encode),
      ("format", d.format.encode),
      ("file_patterns", .texts d.filePatterns),
      ("reserved", .texts d.reserved),
      ("required_keys", .texts d.requiredKeys),
      ("strategies", .list (d.strategies.map Strategy.encode)),
      ("default_missing", d.defaultMissing.encode)] ++
    Wire.optionalField "ideal" .text d.ideal ++
    [("entity_scalars", .list (d.entityScalars.map encodePair)),
      ("comparisons", .list (d.comparisons.map ComparisonRule.encode)),
      ("columns", .list (d.columns.map Column.encode))] ++
    Wire.optionalField "sort" SortKey.encode d.sort ++
    [("scalars", .list (d.scalars.map ScalarRule.encode))] ++
    Wire.optionalField "attachment" AttachmentRule.encode d.attachment ++
    [("file_policy", d.filePolicy.encode),
      ("output_dir", .text d.outputFolder),
      ("data_file", .text d.dataFile)])

/-- Names of the fields, in the order they are written. -/
def fieldNames : List String :=
  ["kind", "format", "file_patterns", "reserved", "required_keys", "strategies", "default_missing",
    "ideal", "entity_scalars", "comparisons", "columns", "sort", "scalars", "attachment",
    "file_policy", "output_dir", "data_file"]

def decode? (j : Json) : Option Descriptor := do
  let fields ← Fields.read? fieldNames j
  return {
    evaluation := ← fields.required "kind" Evaluation.decode?
    format := ← fields.required "format" InputFormat.decode?
    filePatterns := ← fields.required "file_patterns" (Json.list? Json.text?)
    reserved := ← fields.required "reserved" (Json.list? Json.text?)
    requiredKeys := ← fields.required "required_keys" (Json.list? Json.text?)
    strategies := ← fields.required "strategies" (Json.list? Strategy.decode?)
    defaultMissing := ← fields.required "default_missing" MissingPolicy.decode?
    ideal := ← fields.optional "ideal" Json.text?
    entityScalars := ← fields.required "entity_scalars" (Json.list? Json.textPair?)
    comparisons := ← fields.required "comparisons" (Json.list? ComparisonRule.decode?)
    columns := ← fields.required "columns" (Json.list? Column.decode?)
    sort := ← fields.optional "sort" SortKey.decode?
    scalars := ← fields.required "scalars" (Json.list? ScalarRule.decode?)
    attachment := ← fields.optional "attachment" AttachmentRule.decode?
    filePolicy := ← fields.required "file_policy" FilePolicy.decode?
    outputFolder := ← fields.required "output_dir" Json.text?
    dataFile := ← fields.required "data_file" Json.text? }

end Descriptor

end FigureData
