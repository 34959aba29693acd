/-
  Configuration of a run and the context it fixes.

  Values that cannot be used are refused when a context is made
  (`Config.validate`): a delimiter outside ASCII or a line feed, and a sentinel
  that does not exceed one.
-/
import FigureData.Evaluation
import FigureData.Number.Layout
import FigureData.Path
import FigureData.Statistics.Comparison
import FigureData.Wire.Fields
import FigureData.Wire.Value

namespace FigureData

/-! ## Configuration -/

/-- Form of the exported table. -/
structure OutputForm where
  delimiter : Char := ','
  /-- Fixed count of decimals; shortest digits without one. -/
  precision : Option Nat := none
  deriving DecidableEq

structure Config where
  /-- Folder of the result folders. -/
  root : String := "eval_sigcomm2021"
  /-- Folder of the precomputed results, inside the root. -/
  precomputedFolder : String := "precomputed_results"
  /-- Ratio of a median to a baseline median of zero. -/
  ratioSentinel : Float := defaultSentinel
  output : OutputForm := {}
  deriving DecidableEq

namespace OutputForm

/-- The fields read from text. -/
def wanted : Json.Selection := .named ["delimiter", "precision"]

def encode (o : OutputForm) : Wire :=
  .record [("delimiter", .text (String.singleton o.delimiter)),
    ("precision", match o.precision with
      | some n => .count n
      | none => .null)]

def decode? (j : Json) : Option OutputForm := do
  let fields ← Fields.read? ["delimiter", "precision"] j
  return {
    delimiter := ← fields.defaulted "delimiter" Json.char? ','
    precision := ← fields.optionalOrBeyond "precision" (Json.count? 64) }

end OutputForm

namespace Fault

def invalidDelimiter (delimiter : Char) : Fault :=
  let fault : Fault :=
    { family := .config, code := "invalid_delimiter"
      message := "delimiter must be a single ASCII byte" }
  fault.withContext "delimiter" (String.singleton delimiter)

def invalidSentinel (sentinel : Float) : Fault :=
  let fault : Fault :=
    { family := .config, code := "invalid_sentinel"
      message := "ratio sentinel must be greater than one" }
  fault.withContext "ratio_sentinel" (plainNumber sentinel)

end Fault

namespace Config

/-- The fields read from text. -/
def wanted : Json.Selection :=
  .fields [("root", .all), ("precomputed_dir", .all), ("ratio_sentinel", .all),
    ("output", OutputForm.wanted)]

def encode (c : Config) : Wire :=
  .record [
    ("root", .text c.root),
    ("precomputed_dir", .text c.precomputedFolder),
    ("ratio_sentinel", .float c.ratioSentinel),
    ("output", c.output.encode)]

def decode? (j : Json) : Option Config := do
  let fields ← Fields.read? ["root", "precomputed_dir", "ratio_sentinel", "output"] j
  let default : Config := {}
  return {
    root := ← fields.defaulted "root" Json.text? default.root
    precomputedFolder :=
      ← fields.defaulted "precomputed_dir" Json.text? default.precomputedFolder
    ratioSentinel := ← fields.defaulted "ratio_sentinel" Json.number? default.ratioSentinel
    output := ← fields.defaulted "output" OutputForm.decode? default.output }

/-- Refuses a delimiter or a sentinel that cannot be used, the delimiter first. -/
def validate (c : Config) : Except Fault Unit :=
  let delimiter := c.output.delimiter
  if 0x80 ≤ delimiter.toNat ∨ delimiter = '\n' then .error (.invalidDelimiter delimiter)
  else if 1.0 < c.ratioSentinel then .ok ()
  else .error (.invalidSentinel c.ratioSentinel)

end Config

/-! ## Context -/

/-- Which results a run reads. -/
inductive ResultSet where
  | precomputed
  | fresh
  deriving DecidableEq, Repr, Inhabited

def ResultSet.name : ResultSet → String
  | .precomputed => "precomputed"
  | .fresh => "fresh"

/-- A validated configuration together with the results to read. -/
structure Context where
  config : Config
  source : ResultSet
  deriving DecidableEq

namespace Context

def make (config : Config) (source : ResultSet) : Except Fault Context :=
  config.validate.map fun _ => ⟨config, source⟩

def ratioSentinel (ctx : Context) : Float := ctx.config.ratioSentinel

def output (ctx : Context) : OutputForm := ctx.config.output

/-- Folder of the results of an evaluation. -/
def resultFolder (ctx : Context) (e : Evaluation) : String :=
  match ctx.source with
  | .precomputed => Path.join (Path.join ctx.config.root ctx.config.precomputedFolder) e.folder
  | .fresh => Path.join ctx.config.root e.folder

end Context

end FigureData
