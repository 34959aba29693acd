/-
  The command line.

  A command works on a copy of the files that it may read; afterwards the
  changes to the copy are made on the disk.
-/
import FigureData.CommandLine.Outcome
import FigureData.FileTree.Changes
import Std.Time.Format

namespace FigureData

namespace FileTree

/-- Copies what stands at a path on the disk, with everything in it. -/
partial def copyFrom (path : String) (t : FileTree) : IO FileTree := do
  let place := (← IO.currentDir) / path
  if ← place.isDir then
    let mut t := (t.makeFoldersAt path).1
    for item in ← place.readDir do
      t ← copyFrom (Path.join path item.fileName) t
    return t
  else if ← place.pathExists then
    let content ← IO.FS.readBinFile place
    return (t.writeAt? path content.toList).getD t
  else return t

/-- Copies a file together with the folders that lead to it. -/
def copyFile (path : String) (t : FileTree) : IO FileTree :=
  let names := (Path.components path).dropLast
  copyFrom path (t.makeFolders (Path.start path) names).1

end FileTree

/-- Makes a change on the disk. -/
def Change.perform : Change → IO Unit
  | .removeFile path => IO.FS.removeFile path
  | .removeFolder path => IO.FS.removeDir path
  | .makeFolder path => IO.FS.createDirAll path
  | .write path content => IO.FS.writeBinFile path ⟨content.toArray⟩

/-- Copies the files that a run may read. -/
def RunOptions.copyFiles (o : RunOptions) : IO FileTree := do
  let t ←
    match o.configFile with
    | some path => FileTree.copyFile path ∅
    | none => pure ∅
  match o.context t with
  | .ok ctx => (Evaluation.all.map ctx.resultFolder).foldlM (fun t path => t.copyFrom path) t
  | .error _ => return t

/-- Copies the files that a command may read. -/
def Command.copyFiles : Command → IO FileTree
  | .run _ options => options.copyFiles
  | .runAll options => options.copyFiles
  | .describe _ _ => return ∅

/-- The present time in UTC. -/
def presentTime : IO String := do
  let time := Std.Time.DateTime.ofTimestampWithZone (← Std.Time.Timestamp.now) .UTC
  return time.format "uuuu-MM-dd'T'HH:mm:ss.SSSSSSSSSxxx"

def usage : String :=
  let options := "[--pre] [--config FILE] [--root FOLDER] [--precision COUNT]"
  "usage: figuredata run EVALUATION " ++ options ++ "\n" ++
  "       figuredata all " ++ options ++ "\n" ++
  "       figuredata describe EVALUATION [--yaml]"

end FigureData

open FigureData in
/-- Carries a command out on the disk. -/
def main (words : List String) : IO UInt32 := do
  let before ←
    match Command.read? words with
    | some command => command.copyFiles
    | none => pure ∅
  let (after, outcome) := commandLine (← presentTime) words before
  for change in before.changes after do
    change.perform
  IO.print outcome.output
  for fault in outcome.faults do
    IO.eprintln fault.render
  if outcome.status = .badUsage then IO.eprintln usage
  return outcome.status.code.toUInt32
