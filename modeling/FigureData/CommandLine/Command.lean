/-
  Commands: running one evaluation, running all of them, and describing one.
-/
import FigureData.CommandLine.Arguments
import FigureData.Number.Decimal

namespace FigureData

/-- Which results a run reads, and how it is configured. -/
structure RunOptions where
  precomputed : Bool := false
  /-- Path of the configuration file. -/
  configFile : Option String := none
  /-- Replaces the configured root. -/
  root : Option String := none
  /-- Replaces the configured precision. -/
  precision : Option Nat := none
  deriving DecidableEq

inductive Command where
  | run (evaluation : String) (options : RunOptions)
  | runAll (options : RunOptions)
  | describe (evaluation : String) (asYaml : Bool)
  deriving DecidableEq

namespace RunOptions

def vocabulary : Vocabulary where
  flags := ["pre"]
  options := ["config", "root", "precision"]

/-- A path that is not empty, where one is given. -/
def path? (a : Arguments) (name : String) : Option (Option String) :=
  match a.option? name with
  | none => some none
  | some path => if path.isEmpty then none else some (some path)

/-- A precision, where one is given. -/
def precision? (a : Arguments) : Option (Option Nat) :=
  match a.option? "precision" with
  | none => some none
  | some text => (Decimal.readCount? 64 text.toList).map some

def ofArguments? (a : Arguments) : Option RunOptions := do
  return {
    precomputed := a.hasFlag "pre"
    configFile := ← path? a "config"
    root := ← path? a "root"
    precision := ← precision? a }

end RunOptions

namespace Command

def describeVocabulary : Vocabulary where
  flags := ["yaml"]

/-- Reads a command line; bad usage is no command. -/
def read? : List String → Option Command
  | "run" :: words => do
    let a ← Arguments.gather RunOptions.vocabulary words
    match a.plain with
    | [evaluation] => return .run evaluation (← RunOptions.ofArguments? a)
    | _ => none
  | "all" :: words => do
    let a ← Arguments.gather RunOptions.vocabulary words
    match a.plain with
    | [] => return .runAll (← RunOptions.ofArguments? a)
    | _ => none
  | "describe" :: words => do
    let a ← Arguments.gather describeVocabulary words
    match a.plain with
    | [evaluation] => return .describe evaluation (a.hasFlag "yaml")
    | _ => none
  | _ => none

end Command

end FigureData
