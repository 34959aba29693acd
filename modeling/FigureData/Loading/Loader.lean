/-
  Loading the input files of an evaluation.

  Only files that lie directly in the folder and whose names are selected are
  read, in ascending order of their names.  Each file is loaded or faulty on
  its own.
-/
import FigureData.Descriptor.Basic
import FigureData.FileTree.Path
import FigureData.Json.Pointer
import FigureData.Json.Reader
import FigureData.Loading.Selector
import FigureData.Record

namespace FigureData

namespace Fault

def missingFolder (path : String) : Fault :=
  let fault : Fault :=
    { family := .io, code := "result_dir_missing", message := "result directory does not exist" }
  (fault.withContext "path" path).withHint
    "run the benchmark first or pass --pre for precomputed results"

/-- The content of a file is no text. -/
def notText (path : String) : Fault :=
  let fault : Fault := { family := .io, code := "read", message := "content is not UTF-8" }
  fault.withContext "path" path

/-- The content of a file is no document. -/
def malformedDocument (file : String) : Fault :=
  let fault : Fault :=
    { family := .parse, code := "malformed_json", message := "content is not a JSON document" }
  fault.withContext "file" file

end Fault

/-- Which files of a folder are read, and how. -/
structure Loader where
  folder : String
  selector : FileSelector
  format : InputFormat := .json
  /-- Pointers that every document must have. -/
  requiredKeys : List String := []

namespace Loader

/-- The loader that a descriptor asks for. -/
def ofDescriptor (folder : String) (d : Descriptor) : Except Fault Loader :=
  (FileSelector.make d.filePatterns d.reserved).map fun selector =>
    { folder, selector, format := d.format, requiredKeys := d.requiredKeys }

/-- Refuses a document without one of the required parts. -/
def checkRequired (l : Loader) (j : Json) (file : String) : Except Fault Unit :=
  match l.requiredKeys.find? fun pointer => (j.at? pointer).isNone with
  | some pointer => .error (.missingKey pointer file)
  | none => .ok ()

/-- Reads the content of a file. -/
def readContent (l : Loader) (file text : String) : Except Fault Content :=
  match l.format with
  | .text => .ok (.text text)
  | .json =>
    match Json.readSorted? text with
    | none => .error (.malformedDocument file)
    | some j => (l.checkRequired j file).map fun _ => .document j

/-- The record of a file. -/
def read (l : Loader) (file : String) (content : Bytes) : Except Fault Record :=
  let path := Path.join l.folder file
  match Bytes.text? content with
  | none => .error (.notText path)
  | some text => (l.readContent file text).map fun c => ⟨path, file, c⟩

/-- Names and contents of the files to read. -/
def selectedFiles (l : Loader) (t : FileTree) (location : Location) : List (String × Bytes) :=
  (t.filesIn location).filter fun f => l.selector.accepts f.1

/-- The outcome for every file to read, unless the folder is missing. -/
def records (l : Loader) (t : FileTree) : Except Fault (List (Except Fault Record)) :=
  match (t.locate? l.folder).filter t.isFolder with
  | none => .error (.missingFolder l.folder)
  | some location => .ok ((l.selectedFiles t location).map fun f => l.read f.1 f.2)

end Loader

end FigureData
