/-
  Reading measurements out of documents.

  Every fault names the file; those about a part of the document also name the
  pointer to it.
-/
import FigureData.Descriptor.Basic
import FigureData.Json.Pointer
import FigureData.Record
import FigureData.Statistics.Sample

namespace FigureData

namespace Fault

/-- `what` has another shape than a number. -/
def notANumber (what file : String) : Fault :=
  inFile "not_a_number" (what ++ " is not a number") file

def notAnArray (what file : String) : Fault :=
  inFile "not_an_array" (what ++ " is not an array") file

def missingField (key field file : String) : Fault :=
  inFile "missing_field" ("an element of " ++ key ++ " has no " ++ field) file

def notACount (what file : String) : Fault := inFile "not_a_count" what file

end Fault

namespace Extraction

/-- The part at a pointer, which must be present. -/
def require (j : Json) (pointer file : String) : Except Fault Json :=
  match j.at? pointer with
  | some part => .ok part
  | none => .error (.missingKey pointer file)

def requireNumber (j : Json) (pointer file : String) : Except Fault Float := do
  match (← require j pointer file).number? with
  | some x => .ok x
  | none => .error ((Fault.notANumber pointer file).withContext "key" pointer)

def requireArray (j : Json) (pointer file : String) : Except Fault (List Json) := do
  match (← require j pointer file).items? with
  | some items => .ok items
  | none => .error ((Fault.notAnArray pointer file).withContext "key" pointer)

/-- A measurement: a number, or null for one without a solution. -/
def measurement (j : Json) (what file : String) : Except Fault (Option Float) :=
  if j.isNull then .ok none
  else
    match j.number? with
    | some x => .ok (some x)
    | none => .error (.notANumber what file)

/-- The measurement that one element of a sample's array holds. -/
def elementOf (source : SampleSource) (file : String) (element : Json) :
    Except Fault (Option Float) :=
  match source with
  | .valueArray pointer => measurement element pointer file
  | .recordField key field =>
    match element.member? field with
    | some j => measurement j field file
    | none => .error (.missingField key field file)

/-- The sample at a place of a document. -/
def readSample (j : Json) (source : SampleSource) (file : String) : Except Fault Sample := do
  let elements ← requireArray j source.pointer file
  return .ofMeasurements (← elements.mapM (elementOf source file))

end Extraction

end FigureData
