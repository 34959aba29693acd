/-
  Descriptors: what an evaluation reads, computes and writes, as data.

  A descriptor names the input files, the strategies with the place of their
  samples, the columns and scalars of the dataset and the policies for input
  that is missing or broken.
-/
import FigureData.Evaluation
import FigureData.Statistics.Percentile

namespace FigureData

/-! ## Policies -/

/-- What happens to a file that cannot be read as declared. -/
inductive FilePolicy where
  /-- The file is left out, with a warning. -/
  | skipAndWarn
  /-- The run stops. -/
  | abort
  deriving DecidableEq, Repr, Inhabited

/-- What happens to an entity when a strategy has an incomplete sample. -/
inductive MissingPolicy where
  /-- The entity is left out. -/
  | dropEntity
  /-- The run stops: this strategy must always converge. -/
  | abort
  /-- The entity stays, with an undefined summary for the strategy. -/
  | undefined
  deriving DecidableEq, Repr, Inhabited

/-! ## Input -/

inductive InputFormat where
  | json
  | text
  deriving DecidableEq, Repr, Inhabited

/-- Place of a strategy's sample in a document. -/
inductive SampleSource where
  /-- The array `key` of the document holds records with a measurement in `field`. -/
  | recordField (key field : String)
  /-- The array at `pointer` holds the measurements. -/
  | valueArray (pointer : String)
  deriving DecidableEq, Repr, Inhabited

/-- Pointer to the array that a sample is read from. -/
def SampleSource.pointer : SampleSource → String
  | .recordField key _ => "/" ++ key
  | .valueArray pointer => pointer

/-- A strategy that takes part in an evaluation. -/
structure Strategy where
  label : String
  source : SampleSource
  /-- Policy for a sample that is empty or has missing measurements. -/
  missing : MissingPolicy
  /-- When given, only files whose names end so hold this strategy; the rest of
  the name identifies the entity. -/
  fileSuffix : Option String := none
  deriving DecidableEq, Repr

/-! ## Dataset -/

/-- A statistic of one strategy. -/
inductive Statistic where
  | quantile (probability : Probability)
  | whiskerLow
  | whiskerHigh
  | mean
  deriving DecidableEq, Repr, Inhabited

/-- A column of the dataset. -/
inductive Column where
  /-- Identifier of the entity. -/
  | id (header : String)
  /-- Identifier without its digits. -/
  | label (header : String)
  /-- Ideal value of the entity. -/
  | ideal (header : String)
  /-- The scalar of the entity that has the header as its name. -/
  | scalar (header : String)
  | stat (header strategy : String) (statistic : Statistic)
  /-- Ratio of the comparison that has the header as its name. -/
  | ratio (header : String)
  /-- Position of the row, counted from 0. -/
  | rowIndex (header : String)
  /-- Position of the row times `step`. -/
  | position (header : String) (step : Float)
  deriving DecidableEq

namespace Column

def header : Column → String
  | .id h | .label h | .ideal h | .scalar h | .stat h _ _ | .ratio h | .rowIndex h
  | .position h _ => h

/-- Median of a strategy, under its label. -/
def median (strategy : String) : Column := .stat strategy strategy (.quantile .p50)

/-- Mean of a strategy, under its label. -/
def mean (strategy : String) : Column := .stat strategy strategy .mean

/-- All quantiles of a strategy, under its label with the suffix of the probability. -/
def quantiles (strategy : String) : List Column :=
  Probability.all.map fun p => .stat (strategy ++ "_" ++ p.suffix) strategy (.quantile p)

end Column

/-- A comparison of two strategies made for every entity. -/
structure ComparisonRule where
  name : String
  baseline : String
  candidate : String
  deriving DecidableEq, Repr

/-- Order of the rows. -/
structure SortKey where
  column : String
  ascending : Bool
  deriving DecidableEq, Repr

/-- A scalar of the whole dataset, computed from a column. -/
inductive ScalarRule where
  /-- Share at or below one, maximum, number of ties at zero and drawing of a
  column of ratios. -/
  | ratioSummary (column : String)
  | fractionAtOrBelow (name column : String) (threshold : Float)
  | columnMedian (name column : String)
  | columnSum (name column : String)
  deriving DecidableEq

/-- The column that a scalar is computed from. -/
def ScalarRule.column : ScalarRule → String
  | .ratioSummary c | .fractionAtOrBelow _ c _ | .columnMedian _ c | .columnSum _ c => c

/-- One file per entity with the outliers of a strategy. -/
structure AttachmentRule where
  strategy : String
  /-- Follows the identifier of the entity in the file name. -/
  suffix : String
  deriving DecidableEq, Repr

/-! ## Descriptors -/

structure Descriptor where
  evaluation : Evaluation
  format : InputFormat
  /-- Patterns of the names of input files. -/
  filePatterns : List String
  /-- Names that are never read. -/
  reserved : List String
  /-- Pointers that every document must have. -/
  requiredKeys : List String
  strategies : List Strategy
  /-- Policy for strategies that are not declared. -/
  defaultMissing : MissingPolicy
  /-- Pointer to the ideal value. -/
  ideal : Option String
  /-- Scalars read from every document: name and pointer. -/
  entityScalars : List (String × String)
  comparisons : List ComparisonRule
  columns : List Column
  /-- Row order; discovery order without one. -/
  sort : Option SortKey
  scalars : List ScalarRule
  attachment : Option AttachmentRule
  filePolicy : FilePolicy
  /-- Folder of the output, inside the folder of the results. -/
  outputFolder : String
  /-- File name of the table. -/
  dataFile : String
  deriving DecidableEq

namespace Descriptor

/-- The declared strategy with a label. -/
def strategy? (d : Descriptor) (label : String) : Option Strategy :=
  d.strategies.find? fun s => s.label = label

/-- Policy for the sample of a strategy, declared or not. -/
def missingPolicy (d : Descriptor) (label : String) : MissingPolicy :=
  match d.strategy? label with
  | some s => s.missing
  | none => d.defaultMissing

/-- Headers of the declared columns. -/
def headers (d : Descriptor) : List String := d.columns.map Column.header

end Descriptor

end FigureData
