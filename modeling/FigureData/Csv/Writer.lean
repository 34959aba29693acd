/-
  Tables as delimited text.

  Fields are separated by one byte and records are ended by LF.  A field that
  holds the delimiter, a quote, CR or LF stands between quotes, with its quotes
  doubled.  A record that would be empty is written as a quoted empty field.
  The first record fixes how many fields a record has.
-/
import FigureData.Bytes

namespace FigureData.Csv

def quote : UInt8 := 0x22

def lineFeed : UInt8 := 0x0A

def carriageReturn : UInt8 := 0x0D

/-- Must a field with this byte be quoted? -/
def needsQuotes (delimiter b : UInt8) : Bool :=
  b == delimiter || b == quote || b == carriageReturn || b == lineFeed

/-- The bytes of a field with quotes doubled. -/
def doubleQuotes (field : Bytes) : Bytes :=
  field.flatMap fun b => if b == quote then [quote, quote] else [b]

def writeField (delimiter : UInt8) (field : Bytes) : Bytes :=
  if field.any (needsQuotes delimiter) then quote :: (doubleQuotes field ++ [quote]) else field

/-- Fields with delimiters between them. -/
def writeFields (delimiter : UInt8) : List Bytes → Bytes
  | [] => []
  | [field] => writeField delimiter field
  | field :: rest => writeField delimiter field ++ delimiter :: writeFields delimiter rest

def writeRecord (delimiter : UInt8) (fields : List Bytes) : Bytes :=
  let body := writeFields delimiter fields
  (if body.isEmpty then [quote, quote] else body) ++ [lineFeed]

end FigureData.Csv
