import FigureData.SortedMap
import FigureData.OrderedMap
import FigureData.Fault
import FigureData.Text.Blank
import FigureData.Text.Split
import FigureData.Number.Binary64
import FigureData.Number.Decimal
import FigureData.Number.Shortest
import FigureData.Number.Layout
import FigureData.Number.Places
import FigureData.Statistics.Percentile
import FigureData.Statistics.Sample
import FigureData.Statistics.Summary
import FigureData.Statistics.Comparison
import FigureData.Statistics.Tally
import FigureData.Statistics.Distribution
import FigureData.Json.Document
import FigureData.Json.Token
import FigureData.Json.Outline
import FigureData.Json.Reader
import FigureData.Json.Printer
import FigureData.Json.Pointer
import FigureData.Wire.Value
import FigureData.Wire.Fields
import FigureData.Evaluation
import FigureData.Descriptor.Basic
import FigureData.Descriptor.Catalogue
import FigureData.Descriptor.Wire
import FigureData.Wire.Fault
import FigureData.Wire.Branch
import FigureData.Dataset.Cell
import FigureData.Provenance
import FigureData.Path
import FigureData.Config
import FigureData.Record
import FigureData.Entity.Basic
import FigureData.Entity.Summarize
import FigureData.Extraction.Reading
import FigureData.Extraction.Strategies
import FigureData.Extraction.ErrorRates
import FigureData.Extraction.Complexity
import FigureData.Extraction.Classification
import FigureData.Extraction.PacketLoss
import FigureData.Extraction.Extractor
import FigureData.Dataset.Basic
import FigureData.Dataset.Assembly
import FigureData.Dataset.Build
import FigureData.Bytes
import FigureData.Sha256
import FigureData.Csv.Writer
import FigureData.Csv.Reader
import FigureData.Export.Summary
import FigureData.Export.Bundle
import FigureData.FileTree.Basic
import FigureData.FileTree.Path
import FigureData.Export.Output
import FigureData.Glob.Pattern
import FigureData.Glob.Nesting
import FigureData.Glob.Match
import FigureData.Loading.Selector
import FigureData.Loading.Loader
import FigureData.Run.Intake
import FigureData.Run.Collected
import FigureData.Run.Report
import FigureData.Yaml.Plain
import FigureData.Yaml.Printer
import FigureData.Yaml.Node
import FigureData.Yaml.Cursor
import FigureData.Yaml.Scalar
import FigureData.Yaml.Tag
import FigureData.Yaml.Token
import FigureData.Yaml.Lexer
import FigureData.Yaml.Reader
import FigureData.Yaml.Fields
import FigureData.ConfigFile
import FigureData.CommandLine.Arguments
import FigureData.CommandLine.Command
import FigureData.CommandLine.Outcome
import FigureData.FileTree.Changes
import FigureData.Main
import FigureData.Proofs.Text.Utf8
import FigureData.Proofs.Text.Split
import FigureData.Proofs.Binary64.Nearest
import FigureData.Proofs.Binary64.Bits
import FigureData.Proofs.Binary64.Rounding
import FigureData.Proofs.Binary64.Arithmetic
import FigureData.Proofs.Binary64.Sums
import FigureData.Proofs.Binary64.Monotone
import FigureData.Proofs.Binary64.Infinite
import FigureData.Proofs.Statistics.Interpolation
import FigureData.Proofs.Statistics.Ranks
import FigureData.Proofs.Statistics.Percentile
import FigureData.Proofs.Statistics.Ratio
import FigureData.Proofs.Statistics.Summary
import FigureData.Proofs.Statistics.QuantileOrder
import FigureData.Proofs.Statistics.QuantileRanks
import FigureData.Proofs.Statistics.Whiskers
import FigureData.Proofs.Statistics.SampleOrder
import FigureData.Proofs.Statistics.Shares
import FigureData.Proofs.Maps
import FigureData.Proofs.Outcome
import FigureData.Proofs.Json.Sorted
import FigureData.Proofs.Json.Doubles
import FigureData.Proofs.Json.Spelled
import FigureData.Proofs.Json.Finite
import FigureData.Proofs.Json.Words
import FigureData.Proofs.Text.Numerals
import FigureData.Proofs.Json.Numerals
import FigureData.Proofs.Json.Strings
import FigureData.Proofs.Json.RoundTrip
import FigureData.Proofs.Json.Canonical
import FigureData.Proofs.Wire.Records
import FigureData.Proofs.Wire.RoundTrip
import FigureData.Proofs.Wire.Values
import FigureData.Proofs.Descriptor.RoundTrip
import FigureData.Proofs.Wire.ReadBack
import FigureData.Proofs.Entity.Policies
import FigureData.Proofs.Entity.Filled
import FigureData.Proofs.Entity.Kept
import FigureData.Proofs.Extraction.Strategies
import FigureData.Proofs.Extraction.Merging
import FigureData.Proofs.Extraction.Numbering
import FigureData.Proofs.Extraction.Measurements
import FigureData.Proofs.Extraction.Faults
import FigureData.Proofs.Extraction.Scalars
import FigureData.Proofs.Extraction.Packets
import FigureData.Proofs.Extraction.RecordFields
import FigureData.Proofs.Extraction.Logs
import FigureData.Proofs.Dataset.Build
import FigureData.Proofs.FirstAppearance
import FigureData.Proofs.Dataset.Scalars
import FigureData.Proofs.Dataset.Figures
import FigureData.Proofs.Dataset.CellOrder
import FigureData.Proofs.Dataset.RowOrder
import FigureData.Proofs.Dataset.InputOrder
import FigureData.Proofs.Dataset.References
import FigureData.Proofs.Dataset.RatioFigures
import FigureData.Proofs.Csv.RoundTrip
import FigureData.Proofs.Export.Table
import FigureData.Proofs.Export.Summary
import FigureData.Proofs.Export.Files
import FigureData.Proofs.Export.Output
import FigureData.Proofs.FileTree.Removal
import FigureData.Proofs.FileTree.Paths
import FigureData.Proofs.FileTree.Folders
import FigureData.Proofs.FileTree.Renewal
import FigureData.Proofs.Glob.Suffix
import FigureData.Proofs.Run.Intake
import FigureData.Proofs.Extraction.Sessions
import FigureData.Proofs.Extraction.Levels
import FigureData.Proofs.Run.Stages
import FigureData.Proofs.Extraction.OwnFiles
import FigureData.Proofs.Run.CostSamples
import FigureData.Proofs.Run.MustConverge
import FigureData.Proofs.Run.CostFigures
import FigureData.Proofs.Run.InputFiles
import FigureData.Proofs.Run.RequiredKeys
import FigureData.Proofs.Run.Skipping
import FigureData.Proofs.Run.FilledRows
import FigureData.Proofs.Run.LastFiles
import FigureData.Proofs.Extraction.LastRecords
import FigureData.Proofs.Run.LevelTable
import FigureData.Proofs.Run.MissingCells
import FigureData.Proofs.Run.Boxes
import FigureData.Proofs.Run.Output
import FigureData.Proofs.Run.Failure
import FigureData.Proofs.Run.Rerun
import FigureData.Proofs.Run.SummaryFile
import FigureData.Proofs.Run.Accounting
import FigureData.Proofs.Run.Locality
import FigureData.Proofs.Run.Independence
import FigureData.Proofs.Run.AllRuns
