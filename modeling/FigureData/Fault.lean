/-
  Faults: what can go wrong in an evaluation, as data.

  A fault belongs to one of seven families, which decide how far it reaches:
  faults of a single input file (`Family.parse`, `Family.schema`) may be
  downgraded by a file policy, all others stop the evaluation.
-/
import FigureData.SortedMap

namespace FigureData

/-! ## Families -/

inductive Family where
  /-- An input file is not a well-formed document. -/
  | parse
  /-- A required part of a document is absent or has the wrong shape. -/
  | schema
  /-- A strategy has no result. -/
  | undefinedResult
  /-- A sample is empty or otherwise unusable. -/
  | degenerateSample
  /-- Reading or writing the file tree failed. -/
  | io
  /-- The table or the summary could not be written out. -/
  | exporting
  /-- The configuration is unreadable or inconsistent. -/
  | config
  deriving DecidableEq, Repr, Inhabited

namespace Family

def all : List Family :=
  [.parse, .schema, .undefinedResult, .degenerateSample, .io, .exporting, .config]

/-- Name used when a fault is written as data. -/
def name : Family → String
  | .parse => "Parse"
  | .schema => "Schema"
  | .undefinedResult => "UndefinedResult"
  | .degenerateSample => "DegenerateSample"
  | .io => "Io"
  | .exporting => "Export"
  | .config => "Config"

def ofName? (text : String) : Option Family := all.find? fun f => f.name = text

/-- Words that open a rendered message. -/
def heading : Family → String
  | .parse => "parse error"
  | .schema => "schema error"
  | .undefinedResult => "undefined result"
  | .degenerateSample => "degenerate sample"
  | .io => "io error"
  | .exporting => "export error"
  | .config => "config error"

/-- Faults of one input file, which a file policy may downgrade. -/
def isFileLevel : Family → Bool
  | .parse | .schema => true
  | _ => false

theorem ofName?_name (f : Family) : ofName? f.name = some f := by
  cases f <;> decide

end Family

/-! ## Faults -/

/-- A fault with its stable code, its message, the circumstances it arose in
(by name, ascending) and at most one hint. -/
structure Fault where
  family : Family
  code : String
  message : String
  context : SortedMap String String := ∅
  hint : Option String := none
  deriving DecidableEq

namespace Fault

/-- Records a circumstance; a later record of the same name replaces it. -/
def withContext (fault : Fault) (name value : String) : Fault :=
  { fault with context := fault.context.insert name value }

/-- Sets the hint, replacing an earlier one. -/
def withHint (fault : Fault) (hint : String) : Fault :=
  { fault with hint := some hint }

def isFileLevel (fault : Fault) : Bool := fault.family.isFileLevel

/-- The text of a fault: heading, message, code, then circumstances and hint when present. -/
def render (fault : Fault) : String :=
  let circumstances :=
    if fault.context.isEmpty then ""
    else
      let pairs := fault.context.entries.map fun e => e.1 ++ "=" ++ e.2
      " | context: [" ++ ", ".intercalate pairs ++ "]"
  let hint :=
    match fault.hint with
    | some text => " | hint: " ++ text
    | none => ""
  fault.family.heading ++ ": " ++ fault.message ++ " (code: " ++ fault.code ++ ")" ++
    circumstances ++ hint

@[simp] theorem family_withContext (fault : Fault) (name value : String) :
    (fault.withContext name value).family = fault.family := rfl

@[simp] theorem isFileLevel_withContext (fault : Fault) (name value : String) :
    (fault.withContext name value).isFileLevel = fault.isFileLevel := rfl

end Fault

/-! ## Stops -/

/-- Why something has no result. -/
inductive Stop where
  | fault (fault : Fault)
  /-- A number was to be written with more decimals than there can be.  This is
  no fault to report: the whole program ends at once. -/
  | tooManyPlaces
  deriving DecidableEq

end FigureData
