/-
  Records: input files as they are handed to extraction.
-/
import FigureData.Fault
import FigureData.Json.Document
import FigureData.Text.Split

namespace FigureData

/-- What an input file holds. -/
inductive Content where
  | document (value : Json)
  | text (value : String)

/-- One input file. -/
structure Record where
  path : String
  /-- Name without folders. -/
  fileName : String
  content : Content

/-- A fault of one input file. -/
def Fault.inFile (code message file : String) : Fault :=
  let fault : Fault := { family := .schema, code, message }
  fault.withContext "file" file

/-- A document lacks a part that must be present. -/
def Fault.missingKey (pointer file : String) : Fault :=
  (inFile "missing_key" ("required key " ++ pointer ++ " is absent") file).withContext "key" pointer

namespace Record

/-- Text of the file name before the first dot. -/
def stem (r : Record) : String := String.ofList (Text.upTo '.' r.fileName.toList)

/-- The document of a record that is one. -/
def document (r : Record) : Except Fault Json :=
  match r.content with
  | .document j => .ok j
  | .text _ => .error (.inFile "expected_json" "record was loaded as text" r.fileName)

/-- The text of a record that is one. -/
def text (r : Record) : Except Fault String :=
  match r.content with
  | .text s => .ok s
  | .document _ => .error (.inFile "expected_text" "record was loaded as JSON" r.fileName)

end Record

end FigureData
