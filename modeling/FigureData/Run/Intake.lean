/-
  Taking the files of an evaluation in, one after the other.

  A file that is faulty on its own, whether while it is read or while its
  record is ingested, is skipped where the policy allows it.  Any other fault
  ends the intake.
-/
import FigureData.Extraction.Extractor
import FigureData.Loading.Loader

namespace FigureData

/-- What has been taken in. -/
structure Intake where
  extractor : Extractor
  /-- Number of records ingested. -/
  inputFiles : Nat := 0
  /-- Names of the files that were skipped. -/
  skipped : List String := []

namespace Intake

/-- May a file with this fault be skipped? -/
def maySkip (policy : FilePolicy) (fault : Fault) : Bool :=
  fault.isFileLevel && decide (policy = .skipAndWarn)

/-- Name of the faulty file; a fault that names none has an empty one. -/
def faultyFile (fault : Fault) : String := (fault.context.find? "file").getD ""

/-- Takes in the outcome of one file. -/
def take (policy : FilePolicy) (s : Intake) (item : Except Fault Record) : Except Fault Intake :=
  match item.bind s.extractor.ingest with
  | .ok extractor => .ok { s with extractor, inputFiles := s.inputFiles + 1 }
  | .error fault =>
    if maySkip policy fault then .ok { s with skipped := s.skipped ++ [faultyFile fault] }
    else .error fault

def takeAll (policy : FilePolicy) (s : Intake) : List (Except Fault Record) → Except Fault Intake
  | [] => .ok s
  | item :: rest => (s.take policy item).bind fun next => takeAll policy next rest

end Intake

end FigureData
