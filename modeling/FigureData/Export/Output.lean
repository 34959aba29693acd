/-
  Writing a bundle into a file tree.

  The output folder is replaced: it is removed with everything in it and
  created anew.  A failure leaves what was done until then.
-/
import FigureData.Export.Bundle
import FigureData.FileTree.Path

namespace FigureData

/-- The file tree refused an operation at a path. -/
def Fault.refused (code what path : String) : Fault :=
  let fault : Fault := { family := .io, code, message := what }
  fault.withContext "path" path

namespace Bundle

/-- Writes files into a folder, one after the other; yields their paths. -/
def writeFiles (t : FileTree) (folder : String) :
    List (String × Bytes) → FileTree × Except Fault (List String)
  | [] => (t, .ok [])
  | (name, content) :: rest =>
    let path := Path.join folder name
    match t.writeAt? path content with
    | none => (t, .error (.refused "write" "file cannot be written" path))
    | some t =>
      let (t, more) := writeFiles t folder rest
      (t, more.map (path :: ·))

/-- Creates the folder and writes the files. -/
def writeAnew (b : Bundle) (folder : String) (t : FileTree) :
    FileTree × Except Fault (List String) :=
  match t.makeFoldersAt folder with
  | (t, true) => writeFiles t folder b.files
  | (t, false) => (t, .error (.refused "create_output" "folder cannot be created" folder))

/-- Replaces a folder by the files of the bundle; yields their paths. -/
def writeTo (b : Bundle) (folder : String) (t : FileTree) :
    FileTree × Except Fault (List String) :=
  if t.existsAt folder then
    match t.removeFolderAt folder with
    | (t, true) => b.writeAnew folder t
    | (t, false) => (t, .error (.refused "remove_output" "folder cannot be removed" folder))
  else b.writeAnew folder t

end Bundle

end FigureData
