/-
  Writing wire values as YAML.

  Records and lists stand in block form, lists in a record at the indentation
  of their name.  A variant is a tag before its content.  Text is plain where
  that reads back as the same text, else in single quotes, and in double quotes
  where it has characters that need escapes.
-/
import FigureData.Number.Layout
import FigureData.Wire.Value
import FigureData.Yaml.Plain

namespace FigureData.Yaml

/-! ## Characters -/

/-- Can a character stand for itself? -/
def isPrintable (c : Char) : Bool :=
  let n := c.toNat
  n = 0x0A || (0x20 ≤ n && n ≤ 0x7E) || (0xA0 ≤ n && n ≠ 0xFEFF && n ≠ 0xFFFE && n ≠ 0xFFFF)

def isBreak (c : Char) : Bool :=
  c = '\n' || c = '\r' || c = '\x85' || c = '\u2028' || c = '\u2029'

/-- A blank, a line break, or the end of the text. -/
def endsWord : List Char → Bool
  | [] => true
  | c :: _ => c = ' ' || c = '\t' || isBreak c

/-- Characters that mean something at the front of a scalar. -/
def leadIndicators : List Char :=
  ['#', ',', '[', ']', '\x7b', '\x7d', '&', '*', '!', '|', '>', '\'', '"', '%', '@', '\x60']

/-! ## Forms of a text -/

/-- Would the first character of a text be read as an indicator? -/
def leadIndicates : List Char → Bool
  | [] => false
  | c :: rest =>
    c ∈ leadIndicators || ((c = '?' || c = ':' || c = '-') && endsWord rest) ||
      ['-', '-', '-'].isPrefixOf (c :: rest) || ['.', '.', '.'].isPrefixOf (c :: rest)

/-- Is there a colon before a blank, or a number sign after one, past the first character? -/
def innerIndicates (before : Char) : List Char → Bool
  | [] => false
  | c :: rest =>
    (c = ':' && endsWord rest) || (c = '#' && endsWord [before]) || innerIndicates c rest

/-- Is there a space before a line break? -/
def hasSpaceBeforeBreak : List Char → Bool
  | ' ' :: c :: rest => isBreak c || hasSpaceBeforeBreak (c :: rest)
  | _ :: rest => hasSpaceBeforeBreak rest
  | [] => false

/-- Is there a space after a line break? -/
def hasSpaceAfterBreak : List Char → Bool
  | c :: ' ' :: rest => isBreak c || hasSpaceAfterBreak (' ' :: rest)
  | _ :: rest => hasSpaceAfterBreak rest
  | [] => false

/-- Does the text need escapes? -/
def needsEscapes (cs : List Char) : Bool :=
  cs.any (fun c => !isPrintable c) || hasSpaceBeforeBreak cs

def isSpaceOrBreak (c : Char) : Bool := c = ' ' || isBreak c

/-- May a text stand without quotes? -/
def allowsPlain (cs : List Char) : Bool :=
  match cs with
  | [] => true
  | c :: rest =>
    !needsEscapes cs && !leadIndicates cs && !innerIndicates c rest && !cs.any isBreak &&
      !isSpaceOrBreak c && !isSpaceOrBreak (cs.getLastD c)

/-- May a text stand in single quotes? -/
def allowsSingleQuotes (cs : List Char) : Bool := !needsEscapes cs && !hasSpaceAfterBreak cs

/-- May a text stand as a block of lines? -/
def allowsLiteral (cs : List Char) : Bool :=
  !cs.isEmpty && !needsEscapes cs && cs.getLastD 'x' != ' '

/-! ## Quoting -/

/-- Quotes inside single quotes are doubled. -/
def writeSingleQuoted (cs : List Char) : List Char :=
  '\'' :: (cs.flatMap fun c => if c = '\'' then ['\'', '\''] else [c]) ++ ['\'']

/-- The last `width` hexadecimal digits of a number, in upper case. -/
def hexDigits (width n : Nat) : List Char :=
  let digits := (Nat.toDigits 16 n).map Char.toUpper
  List.replicate (width - digits.length) '0' ++ digits

/-- The letter of a short escape. -/
def shortEscape? (c : Char) : Option Char :=
  match c with
  | '\x00' => some '0'
  | '\x07' => some 'a'
  | '\x08' => some 'b'
  | '\t' => some 't'
  | '\n' => some 'n'
  | '\x0b' => some 'v'
  | '\x0c' => some 'f'
  | '\r' => some 'r'
  | '\x1b' => some 'e'
  | '"' => some '"'
  | '\\' => some '\\'
  | '\x85' => some 'N'
  | '\xa0' => some '_'
  | '\u2028' => some 'L'
  | '\u2029' => some 'P'
  | _ => none

def escapeChar (c : Char) : List Char :=
  if isPrintable c && !isBreak c && c != '"' && c != '\\' then [c]
  else
    match shortEscape? c with
    | some letter => ['\\', letter]
    | none =>
      let n := c.toNat
      if n ≤ 0xFF then '\\' :: 'x' :: hexDigits 2 n
      else if n ≤ 0xFFFF then '\\' :: 'u' :: hexDigits 4 n
      else '\\' :: 'U' :: hexDigits 8 n

def writeDoubleQuoted (cs : List Char) : List Char := '"' :: (cs.flatMap escapeChar ++ ['"'])

/-! ## Lines -/

/-- A line and the break that ends it. -/
structure Line where
  text : List Char
  ending : Char := '\n'

namespace Line

/-- A line further in; one without text stays empty. -/
def indented (line : Line) : Line :=
  if line.text.isEmpty then line else { line with text := ' ' :: ' ' :: line.text }

/-- Puts text before a line. -/
def prepend (text : List Char) (line : Line) : Line := { line with text := text ++ line.text }

def characters (line : Line) : List Char := line.text ++ [line.ending]

end Line

/-- The lines of a text, `read` the characters of the first in reverse.  What is
behind the last break makes a line as well. -/
def splitLines (read : List Char) : List Char → Line × List Line
  | [] => (⟨read.reverse, '\n'⟩, [])
  | c :: rest =>
    if isBreak c then
      let (next, more) := splitLines [] rest
      (⟨read.reverse, c⟩, next :: more)
    else splitLines (c :: read) rest

/-! ## Blocks -/

/-- What the lines of a block are. -/
inductive Shape where
  /-- Entries, at the indentation of a name before them. -/
  | list
  | record
  /-- Lines of one text. -/
  | text
  deriving DecidableEq

/-- A value laid out: what stands on the line it begins on, and the lines below. -/
structure Block where
  /-- `none` when the first line belongs to the lines below. -/
  lead : Option Line
  lines : List Line := []
  shape : Shape := .text

namespace Block

/-- A value on a single line. -/
def ofText (text : List Char) : Block := { lead := some { text } }

/-- A text over all its lines. -/
def ofLines (text : List Char) : Block :=
  let (first, more) := splitLines [] text
  { lead := some first, lines := more }

end Block

/-- Marks after the bar of a literal block: a leading blank asks for an explicit
indentation, and the breaks at the end are dropped, kept once or kept all. -/
def literalMarks (cs : List Char) : List Char :=
  let indentation := if cs.head?.any isSpaceOrBreak then ['2'] else []
  let ending :=
    match cs.reverse with
    | last :: before =>
      if !isBreak last then ['-']
      else if before.isEmpty || before.head?.any isBreak then ['+']
      else []
    | [] => ['-']
  indentation ++ ending

/-- The lines of a literal block; behind a break at the end there is none. -/
def literalLines (cs : List Char) : List Line :=
  let (first, more) := splitLines [] cs
  if cs.getLast?.any isBreak then (first :: more).dropLast else first :: more

/-- A text that is not in a block of lines. -/
def writeInline (s : String) : List Char :=
  let cs := s.toList
  if !spellsValue s && allowsPlain cs then cs
  else if allowsSingleQuotes cs then writeSingleQuoted cs
  else writeDoubleQuoted cs

/-- The name of a field, which is on one line. -/
def writeName (s : String) : List Char :=
  if s.toList.any isBreak then writeDoubleQuoted s.toList else writeInline s

def writeText (s : String) : Block :=
  let cs := s.toList
  if cs.contains '\n' then
    if allowsLiteral cs then
      { lead := some { text := '|' :: literalMarks cs }, lines := literalLines cs }
    else .ofText (writeDoubleQuoted cs)
  else .ofLines (writeInline s)

/-- Doubles are laid out as in JSON, but a positive exponent has no sign. -/
def numberLayout : Layout := ⟨fun point => -5 < point && point ≤ 16, true, false, .even⟩

def writeFloat (x : Float) : List Char :=
  if x.isFinite then numberLayout.writeFinite x
  else if x.isNaN then ".nan".toList
  else if Binary64.isNegative x then "-.inf".toList
  else ".inf".toList

def writeInt (n : Int) : List Char :=
  if n < 0 then '-' :: Digits.ofNat n.natAbs else Digits.ofNat n.natAbs

/-- The lines of a list entry. -/
def entryLines (b : Block) : List Line :=
  match b.lead, b.lines with
  | some lead, lines => lead.prepend ['-', ' '] :: lines.map Line.indented
  | none, first :: rest => first.prepend ['-', ' '] :: rest.map Line.indented
  | none, [] => [{ text := ['-'] }]

/-- The lines of a field of a record. -/
def fieldLines (name : String) (b : Block) : List Line :=
  let head := writeName name ++ [':']
  let first : Line :=
    match b.lead with
    | some lead => lead.prepend (head ++ [' '])
    | none => { text := head }
  first :: if b.shape = .list then b.lines else b.lines.map Line.indented

/-- Puts a tag before a value. -/
def tagged (name : String) (b : Block) : Block :=
  let tag := '!' :: name.toList
  match b.lead with
  | some lead => { b with lead := some (lead.prepend (tag ++ [' '])) }
  | none => { b with lead := some { text := tag } }

mutual

def layOut : Wire → Block
  | .null => .ofText "null".toList
  | .bool b => .ofText (if b then "true".toList else "false".toList)
  | .int n => .ofText (writeInt n)
  | .float x => .ofText (writeFloat x)
  | .text s => writeText s
  | .list [] => .ofText ['[', ']']
  | .list (w :: rest) =>
    { lead := none, lines := entryLines (layOut w) ++ layOutItems rest, shape := .list }
  | .record [] => .ofText ['\x7b', '\x7d']
  | .record ((name, w) :: rest) =>
    { lead := none, lines := fieldLines name (layOut w) ++ layOutFields rest, shape := .record }
  | .variant name content => tagged name (layOut content)

def layOutItems : List Wire → List Line
  | [] => []
  | w :: rest => entryLines (layOut w) ++ layOutItems rest

def layOutFields : List (String × Wire) → List Line
  | [] => []
  | (name, w) :: rest => fieldLines name (layOut w) ++ layOutFields rest

end

/-- The lines of a whole document. -/
def documentLines (b : Block) : List Line :=
  let lines := if b.shape = .text then b.lines.map Line.indented else b.lines
  match b.lead with
  | some lead => lead :: lines
  | none => lines

/-- The text of a value. -/
def write (w : Wire) : String :=
  String.ofList ((documentLines (layOut w)).flatMap Line.characters)

end FigureData.Yaml
