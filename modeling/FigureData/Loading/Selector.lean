/-
  Selecting input files by their names.
-/
import FigureData.Fault
import FigureData.Glob.Match

namespace FigureData

def Fault.invalidPattern (pattern : String) : Fault :=
  let fault : Fault :=
    { family := .config, code := "invalid_pattern", message := "pattern cannot be read" }
  fault.withContext "pattern" pattern

/-- Some pattern is nested too deeply. -/
def Fault.deepPattern : Fault :=
  { family := .config, code := "invalid_pattern", message := "pattern is nested too deeply" }

/-- Patterns of names to read, and names that are never read. -/
structure FileSelector where
  patterns : List (List Glob.Token)
  reserved : List String

namespace FileSelector

/-- Reads patterns in order, up to the first that is none. -/
def readPatterns : List String → Except Fault (List (List Glob.Token))
  | [] => .ok []
  | pattern :: rest =>
    match Glob.read? pattern with
    | none => .error (.invalidPattern pattern)
    | some tokens => (readPatterns rest).map (tokens :: ·)

/-- A selector; how deep the patterns are nested is checked once all are read. -/
def make (patterns reserved : List String) : Except Fault FileSelector := do
  let patterns ← readPatterns patterns
  if patterns.any fun tokens => Glob.maxNesting < Glob.nesting tokens then .error .deepPattern
  else return ⟨patterns, reserved⟩

/-- Is a file of this name to be read? -/
def accepts (s : FileSelector) (name : String) : Bool :=
  !decide (name ∈ s.reserved) && s.patterns.any fun tokens => Glob.matchesName tokens name

end FileSelector

end FigureData
