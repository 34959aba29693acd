/-
  What has to be done to turn one file tree into another.

  First everything that is gone or has become something else is removed, from
  the inside out; then folders are made and files written, from the outside in.
-/
import FigureData.FileTree.Path

namespace FigureData

inductive Change where
  | removeFile (path : String)
  /-- Of a folder that is empty by then. -/
  | removeFolder (path : String)
  | makeFolder (path : String)
  | write (path : String) (content : Bytes)

/-- The path of a location. -/
def Location.path (location : Location) : String :=
  location.foldr (fun name outer => Path.join outer name) ""

namespace FileTree

/-- Locations and their nodes, the outer ones first. -/
def outward (t : FileTree) : List (Location × Node) :=
  t.nodes.entries.mergeSort fun a b => a.1.length ≤ b.1.length

/-- Are two nodes both files or both folders? -/
def sameKind : Option Node → Option Node → Bool
  | some .folder, some .folder => true
  | some (.file _), some (.file _) => true
  | _, _ => false

/-- How a node is removed. -/
def removal (location : Location) : Node → Change
  | .folder => .removeFolder location.path
  | .file _ => .removeFile location.path

/-- How a node is made. -/
def making (location : Location) : Node → Change
  | .folder => .makeFolder location.path
  | .file content => .write location.path content

/-- The changes that lead from one tree to another. -/
def changes (before after : FileTree) : List Change :=
  let gone := before.outward.reverse.filter fun e => !sameKind (some e.2) (after.nodeAt? e.1)
  let made := after.outward.filter fun e => decide (before.nodeAt? e.1 ≠ some e.2)
  gone.map (fun e => removal e.1 e.2) ++ made.map (fun e => making e.1 e.2)

end FileTree

end FigureData
