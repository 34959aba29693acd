/-
  Extraction of scheduling times by problem complexity.

  A file `r<repetition>_v<level>.json` holds one sample.  Each level becomes
  an entity; its samples are labelled by the number of commands and entered in
  ascending order of repetitions.
-/
import FigureData.Entity.Basic
import FigureData.Extraction.Reading

namespace FigureData.Extraction

/-- Samples by level and, within a level, by repetition. -/
abbrev Levels := SortedMap Nat (SortedMap Nat (String × Sample))

/-- Repetition and level that a file name stands for. -/
def readComplexityName? (fileName : String) : Option (Nat × Nat) := do
  let stem ← Text.beforeTail? ".json".toList fileName.toList
  let (r, v) ← Text.cutAt? '_' stem
  let repetition ← Decimal.readCount? 64 (← Text.afterLead? ['r'] r)
  let level ← Decimal.readCount? 64 (← Text.afterLead? ['v'] v)
  return (repetition, level)

/-- Place of the sample in a document. -/
def timesSource : SampleSource := .recordField "strategy_result" "time"

/-- One measured repetition. -/
structure Repetition where
  repetition : Nat
  level : Nat
  label : String
  sample : Sample

def readRepetition (r : Record) : Except Fault Repetition := do
  let file := r.fileName
  match readComplexityName? file with
  | none => .error (.inFile "unexpected_file_name" "expected a file named r<r>_v<v>.json" file)
  | some (repetition, level) =>
    let j ← r.document
    match (← require j "/num_commands" file).count? 64 with
    | none => .error (.notACount "num_commands is not a count" file)
    | some commands =>
      let sample ← readSample j timesSource file
      return ⟨repetition, level, "c" ++ toString commands, sample⟩

def Repetition.enter (r : Repetition) (levels : Levels) : Levels :=
  let repetitions := (levels.find? r.level).getD ∅
  levels.insert r.level (repetitions.insert r.repetition (r.label, r.sample))

/-- The entity of one level. -/
def levelEntity (level : Nat) (repetitions : SortedMap Nat (String × Sample)) : Entity where
  id := toString level
  samples := .ofList repetitions.values
  scalars := .ofList [("complexity", Binary64.ofNat level)]

/-- The entities of all levels, ascending and numbered in that order. -/
def levelEntities (levels : Levels) : List Entity :=
  Entity.number 0 (levels.entries.map fun (level, repetitions) => levelEntity level repetitions)

end FigureData.Extraction
