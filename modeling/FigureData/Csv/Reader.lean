/-
  Reading delimited text back into records.

  A machine takes one byte at a time.  A quote may open a field, and inside
  quotes a doubled quote stands for one; anywhere else a quote is refused, and
  so is an end of the text inside a record.
-/
import FigureData.Csv.Writer

namespace FigureData.Csv

/-- Where the reader stands in a field.  Bytes read so far are kept in reverse. -/
inductive FieldMode where
  /-- Nothing of the field is read. -/
  | fresh
  | plain (read : Bytes)
  | quoted (read : Bytes)
  /-- After a quote inside quotes: the field is over, or the quote is doubled. -/
  | afterQuote (read : Bytes)
  deriving DecidableEq

/-- Finished records and the finished fields of the current one, in reverse. -/
structure ReadState where
  records : List (List Bytes)
  fields : List Bytes
  mode : FieldMode
  deriving DecidableEq

namespace ReadState

def start : ReadState := ⟨[], [], .fresh⟩

/-- The end of a field inside a record. -/
def endField (s : ReadState) (field : Bytes) : ReadState :=
  ⟨s.records, field.reverse :: s.fields, .fresh⟩

/-- The end of a field and of its record. -/
def endRecord (s : ReadState) (field : Bytes) : ReadState :=
  ⟨(field.reverse :: s.fields).reverse :: s.records, [], .fresh⟩

def within (s : ReadState) (mode : FieldMode) : ReadState := { s with mode }

end ReadState

/-- One byte. -/
def readByte (delimiter : UInt8) (s : ReadState) (b : UInt8) : Option ReadState :=
  match s.mode with
  | .fresh =>
    if b = quote then some (s.within (.quoted []))
    else if b = delimiter then some (s.endField [])
    else if b = lineFeed then some (s.endRecord [])
    else some (s.within (.plain [b]))
  | .plain read =>
    if b = quote then none
    else if b = delimiter then some (s.endField read)
    else if b = lineFeed then some (s.endRecord read)
    else some (s.within (.plain (b :: read)))
  | .quoted read =>
    if b = quote then some (s.within (.afterQuote read)) else some (s.within (.quoted (b :: read)))
  | .afterQuote read =>
    if b = quote then some (s.within (.quoted (quote :: read)))
    else if b = delimiter then some (s.endField read)
    else if b = lineFeed then some (s.endRecord read)
    else none

def readBytes (delimiter : UInt8) (s : ReadState) : Bytes → Option ReadState
  | [] => some s
  | b :: rest => (readByte delimiter s b).bind fun next => readBytes delimiter next rest

/-- The records of a text. -/
def read? (delimiter : UInt8) (text : Bytes) : Option (List (List Bytes)) := do
  let final ← readBytes delimiter .start text
  if final.fields = [] ∧ final.mode = .fresh then some final.records.reverse else none

end FigureData.Csv
