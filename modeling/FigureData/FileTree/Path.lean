/-
  Paths into a file tree.

  A path is followed component by component from the working folder, or from
  the root folder when it is absolute.  Every component but the last has to
  lead to a folder of the tree, even if the next one leads out of it again.
-/
import FigureData.FileTree.Basic
import FigureData.Path

namespace FigureData

/-! ## Components -/

namespace Path

/-- The pieces between slashes. -/
def components (path : String) : List String :=
  (Text.splitAt '/' path.toList).map String.ofList

/-- Where a path begins. -/
def start (path : String) : Location := if isAbsolute path then ["/"] else []

/-- Longest name of a file or folder, in bytes. -/
def maxNameBytes : Nat := 255

/-- Longest path, in bytes. -/
def maxBytes : Nat := 4095

/-- Can a path be followed at all? -/
def isUsable (path : String) : Bool :=
  path.utf8ByteSize ≤ maxBytes && !path.toList.contains '\x00'

/-- Does a component stay where it is? -/
def isIdle (component : String) : Bool := component = "" || component = "."

/-- Where a component leads from a folder: an empty one and `.` stay, `..` goes
outwards, but not out of the working folder. -/
def step? (folder : Location) (component : String) : Option Location :=
  if isIdle component then some folder
  else if component = ".." then
    match folder with
    | [] => none
    | ["/"] => some folder
    | _ :: parent => some parent
  else if component.utf8ByteSize ≤ maxNameBytes then some (component :: folder)
  else none

end Path

/-! ## Following paths -/

namespace FileTree

/-- Follows components from a location; each one has to start at a folder. -/
def walk? (t : FileTree) (location : Location) : List String → Option Location
  | [] => some location
  | component :: rest =>
    if t.isFolder location then
      (Path.step? location component).bind fun next => walk? t next rest
    else none

/-- The location that a path leads to, whether or not something stands there. -/
def locate? (t : FileTree) (path : String) : Option Location :=
  if path.isEmpty || !Path.isUsable path then none
  else t.walk? (Path.start path) (Path.components path)

def isFolderAt (t : FileTree) (path : String) : Bool := (t.locate? path).any t.isFolder

def existsAt (t : FileTree) (path : String) : Bool :=
  (t.locate? path).any fun location => (t.nodeAt? location).isSome

/-- The content of the file at a path. -/
def readAt? (t : FileTree) (path : String) : Option Bytes := (t.locate? path).bind t.contentAt?

/-! ## Changes at a path -/

def writeAt? (t : FileTree) (path : String) (content : Bytes) : Option FileTree :=
  match t.locate? path with
  | some (name :: parent) => t.writeFile? name parent content
  | _ => none

/-- Removes the empty folder that the last component names.  A path that leads
nowhere any more has nothing to remove; a last `.` or `..` names no folder. -/
def removeEmptyAt? (t : FileTree) (path : String) : Option FileTree :=
  match (Path.components path).reverse.dropWhile (· = "") with
  | [] => none
  | name :: before =>
    match (t.walk? (Path.start path) before.reverse).filter t.isFolder with
    | none => some t
    | some parent => if name = "." ∨ name = ".." then none else some (t.remove name parent)

/-- Empties the folder at a path, then removes it: the tree that is left, and
whether all went well. -/
def removeFolderAt (t : FileTree) (path : String) : FileTree × Bool :=
  match t.locate? path with
  | none => (t, false)
  | some folder =>
    if t.isFolder folder then
      let cleared := t.clear folder
      match cleared.removeEmptyAt? path with
      | some removed => (removed, true)
      | none => (cleared, false)
    else (t, false)

/-- Makes sure that a location is a folder. -/
def provideFolder? (t : FileTree) (location : Location) : Option FileTree :=
  if t.isFolder location then some t
  else
    match location with
    | name :: parent => t.makeFolder? name parent
    | [] => none

/-- Follows components and creates the folders that are missing.  Folders
created before a failure stay. -/
def makeFolders (t : FileTree) (location : Location) : List String → FileTree × Bool
  | [] => (t, true)
  | component :: rest =>
    match Path.step? location component with
    | none => (t, false)
    | some next =>
      match t.provideFolder? next with
      | some t => makeFolders t next rest
      | none => (t, false)

/-- Creates the folder at a path together with the folders that lead to it.  A
folder with a `.` after it is not created. -/
def makeFoldersAt (t : FileTree) (path : String) : FileTree × Bool :=
  if path.isEmpty then (t, true)
  else if !Path.isUsable path then (t, false)
  else
    let names := Path.components path
    let named := (names.reverse.dropWhile Path.isIdle).reverse
    if (names.drop named.length).contains "." then
      let (t, made) := t.makeFolders (Path.start path) named.dropLast
      (t, made && t.isFolderAt path)
    else t.makeFolders (Path.start path) named

end FileTree

end FigureData
