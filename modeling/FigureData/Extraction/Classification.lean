/-
  Extraction of confusion counts from the log of the classifier.

  Four lines `Label: count (percentage%)` follow the line `Results:`; what
  stands before that line or after the four does not matter.
-/
import FigureData.Entity.Basic
import FigureData.Extraction.Reading

namespace FigureData.Extraction

def resultsMarker : String := "Results:"

def resultLineCount : Nat := 4

/-- Characters that may surround a percentage. -/
def isPercentageMark (c : Char) : Bool := c = '(' || c = ')' || c = '%'

/-- Label, count and share that a line states. -/
def readResultLine? (line : List Char) : Option (String × Nat × Float) := do
  let (label, rest) ← Text.cutAt? ':' line
  match Text.words rest with
  | count :: percentage :: _ =>
    let count ← Decimal.readCount? 64 count
    let percent ← Decimal.readFloat? (Text.trimWhile isPercentageMark percentage)
    return (String.ofList (Text.trim label), count, percent / 100.0)
  | _ => none

/-- The lines after the marker. -/
def afterMarker (lines : List (List Char)) : List (List Char) :=
  (lines.dropWhile fun line => Text.trim line ≠ resultsMarker.toList).drop 1

/-- An entity for each of the next `n` lines. -/
def readResultLines (file : String) : Nat → List (List Char) → Except Fault (List Entity)
  | 0, _ => .ok []
  | _ + 1, [] =>
    .error (.inFile "missing_results_section"
      ("expected " ++ toString resultLineCount ++ " lines after " ++ resultsMarker) file)
  | n + 1, line :: rest =>
    match readResultLine? line with
    | none =>
      .error ((Fault.inFile "malformed_result_line" "expected \x60Label: count (pct%)\x60"
        file).withContext "line" (String.ofList (Text.trim line)))
    | some (label, count, rate) => do
      let more ← readResultLines file n rest
      return {
        id := label
        scalars := .ofList [("count", Binary64.ofNat count), ("rate", rate)] } :: more

/-- The four outcomes that a log reports. -/
def readOutcomes (r : Record) : Except Fault (List Entity) := do
  let text ← r.text
  readResultLines r.fileName resultLineCount (afterMarker (Text.lines text.toList))

end FigureData.Extraction
