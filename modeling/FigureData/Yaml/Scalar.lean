/-
  Reading the text of scalars.

  Inside a scalar a single line break is read as a space and further ones are
  kept; a literal block keeps all.  Each reader yields the text and the place
  behind it.
-/
import FigureData.Yaml.Cursor
import FigureData.Yaml.Plain

namespace FigureData.Yaml

/-! ## Gaps between words -/

/-- What stands between two words of a scalar, in reverse. -/
inductive Gap where
  | nothing
  | blanks (read : List Char)
  /-- Line breaks; blanks around them do not count. -/
  | breaks (read : List Char)
  /-- Line breaks after one that is escaped. -/
  | escaped (read : List Char)

namespace Gap

def isNothing : Gap → Bool
  | .nothing => true
  | _ => false

def isBreaks : Gap → Bool
  | .breaks _ => true
  | _ => false

def addBlank (c : Char) : Gap → Gap
  | .nothing => .blanks [c]
  | .blanks read => .blanks (c :: read)
  | gap => gap

def addBreak (c : Char) : Gap → Gap
  | .nothing => .breaks [c]
  | .blanks _ => .breaks [c]
  | .breaks read => .breaks (c :: read)
  | .escaped read => .escaped (c :: read)

/-- The text that a gap stands for. -/
def text : Gap → List Char
  | .nothing => []
  | .blanks read => read.reverse
  | .escaped read => read.reverse
  | .breaks read =>
    match read.reverse with
    | ['\n'] => [' ']
    | '\n' :: more => more
    | all => all

/-- Appends a gap to the text before it, which is in reverse. -/
def after (gap : Gap) (read : List Char) : List Char := gap.text.reverse ++ read

end Gap

/-! ## Plain scalars -/

def isFlowIndicator (c : Char) : Bool :=
  c = ',' || c = '[' || c = ']' || c = '\x7b' || c = '\x7d'

/-- Characters that begin no plain scalar. -/
def isIndicator (c : Char) : Bool :=
  isFlowIndicator c || c = '#' || c = '&' || c = '*' || c = '!' || c = '|' || c = '>' ||
    c = '\'' || c = '"' || c = '%' || c = '@' || c = '\x60'

/-- May a plain scalar begin here? -/
def beginsPlain (inFlow : Bool) : List Char → Bool
  | [] => false
  | c :: rest =>
    if c = '-' then !atWordEnd rest
    else if c = '?' || c = ':' then !inFlow && !atWordEnd rest
    else !isIndicator c && !isBlankOrBreak c

/-- Does a plain scalar end before a word? -/
def endsBeforeWord (inFlow : Bool) (indent : Int) (m : Mark) (cs : List Char) : Bool :=
  (!inFlow && decide ((m.column : Int) < indent)) || cs.head? = some '#' ||
    (⟨cs, m⟩ : Cursor).isAtDocumentMark

/-- Does a plain scalar end inside a word? -/
def endsInWord (inFlow : Bool) : List Char → Bool
  | [] => true
  | c :: rest => (c = ':' && atWordEnd rest) || (inFlow && isFlowIndicator c)

/-- Between brackets a colon may not stand before an indicator. -/
def isStrayColon (inFlow : Bool) : List Char → Bool
  | ':' :: c :: _ => inFlow && (isFlowIndicator c || c = '?')
  | _ => false

/-- A plain scalar that has been read. -/
structure PlainScalar where
  text : String
  /-- Is a line break between the scalar and what follows? -/
  endsLine : Bool
  /-- Where something else follows. -/
  cursor : Cursor

/-- The scalar that ends at a place, its text in reverse. -/
def PlainScalar.ofRead (read : List Char) (gap : Gap) (cursor : Cursor) : PlainScalar :=
  ⟨String.ofList read.reverse, gap.isBreaks, cursor⟩

/-- Reads a plain scalar whose further lines are indented by at least `indent`. -/
def readPlain (inFlow : Bool) (indent : Int) (m : Mark) (read : List Char) (gap : Gap) :
    List Char → Option PlainScalar
  | [] => some (.ofRead read gap ⟨[], m⟩)
  | c :: rest =>
    if isBlank c then
      if c = '\t' && gap.isBreaks && decide ((m.column : Int) < indent) then none
      else readPlain inFlow indent m.next read (gap.addBlank c) rest
    else if isLineBreak c then readPlain inFlow indent m.nextLine read (gap.addBreak c) rest
    else if !gap.isNothing && endsBeforeWord inFlow indent m (c :: rest) then
      some (.ofRead read gap ⟨c :: rest, m⟩)
    else if isStrayColon inFlow (c :: rest) then none
    else if endsInWord inFlow (c :: rest) then some (.ofRead read gap ⟨c :: rest, m⟩)
    else readPlain inFlow indent m.next (c :: gap.after read) .nothing rest

/-! ## Quoted scalars -/

/-- What the reader of a quoted scalar is inside of. -/
inductive QuoteMode where
  | body
  /-- After a backslash. -/
  | escape
  /-- Inside a numeric escape: digits still owed and the value of those read. -/
  | hex (owed value : Nat)

/-- How many digits an escape takes. -/
def escapeWidth? : Char → Option Nat
  | 'x' => some 2
  | 'u' => some 4
  | 'U' => some 8
  | _ => none

/-- The character that a short escape stands for. -/
def escapedChar? : Char → Option Char
  | '0' => some '\x00'
  | 'a' => some '\x07'
  | 'b' => some '\x08'
  | 't' => some '\t'
  | '\t' => some '\t'
  | 'n' => some '\n'
  | 'v' => some '\x0b'
  | 'f' => some '\x0c'
  | 'r' => some '\r'
  | 'e' => some '\x1b'
  | ' ' => some ' '
  | '"' => some '"'
  | '/' => some '/'
  | '\\' => some '\\'
  | 'N' => some '\x85'
  | '_' => some '\xa0'
  | 'L' => some '\u2028'
  | 'P' => some '\u2029'
  | _ => none

/-- The character with a code. -/
def charOf? (n : Nat) : Option Char := if n.isValidChar then some (Char.ofNat n) else none

/-- Reads a single-quoted scalar after its first quote; a doubled quote stands for one. -/
def readSingleQuoted (m : Mark) (read : List Char) (gap : Gap) :
    List Char → Option (String × Cursor)
  | [] => none
  | '\'' :: '\'' :: rest =>
    readSingleQuoted m.next.next ('\'' :: gap.after read) .nothing rest
  | c :: rest =>
    if isBlank c then readSingleQuoted m.next read (gap.addBlank c) rest
    else if isLineBreak c then readSingleQuoted m.nextLine read (gap.addBreak c) rest
    else if (⟨c :: rest, m⟩ : Cursor).isAtDocumentMark then none
    else if c = '\'' then some (String.ofList (gap.after read).reverse, ⟨rest, m.next⟩)
    else readSingleQuoted m.next (c :: gap.after read) .nothing rest

/-- Reads a double-quoted scalar after its first quote. -/
def readDoubleQuoted (m : Mark) (read : List Char) (gap : Gap) (mode : QuoteMode) :
    List Char → Option (String × Cursor)
  | [] => none
  | c :: rest =>
    match mode with
    | .escape =>
      if isLineBreak c then readDoubleQuoted m.nextLine read (.escaped []) .body rest
      else
        match escapeWidth? c, escapedChar? c with
        | some width, _ => readDoubleQuoted m.next read .nothing (.hex width 0) rest
        | none, some e => readDoubleQuoted m.next (e :: read) .nothing .body rest
        | none, none => none
    | .hex owed value =>
      match digitIn? 16 c with
      | none => none
      | some digit =>
        let value := 16 * value + digit
        if owed ≤ 1 then
          match charOf? value with
          | some e => readDoubleQuoted m.next (e :: read) .nothing .body rest
          | none => none
        else readDoubleQuoted m.next read .nothing (.hex (owed - 1) value) rest
    | .body =>
      if isBlank c then readDoubleQuoted m.next read (gap.addBlank c) .body rest
      else if isLineBreak c then readDoubleQuoted m.nextLine read (gap.addBreak c) .body rest
      else if (⟨c :: rest, m⟩ : Cursor).isAtDocumentMark then none
      else if c = '"' then some (String.ofList (gap.after read).reverse, ⟨rest, m.next⟩)
      else if c = '\\' then readDoubleQuoted m.next (gap.after read) .nothing .escape rest
      else readDoubleQuoted m.next (c :: gap.after read) .nothing .body rest

/-! ## Block scalars -/

/-- What becomes of the line breaks at the end. -/
inductive Chomp where
  | strip
  | clip
  | keep
  deriving DecidableEq

def chomp? : Char → Option Chomp
  | '+' => some .keep
  | '-' => some .strip
  | _ => none

/-- An explicit indentation, which is not zero. -/
def increment? (c : Char) : Option Nat :=
  if '1' ≤ c ∧ c ≤ '9' then some (Digits.value c) else none

/-- The marks after the bar: a chomp and an explicit indentation, in either order. -/
def blockMarks (cs : List Char) : Chomp × Option Nat × List Char :=
  match cs with
  | a :: b :: rest =>
    match chomp? a, increment? a, chomp? b, increment? b with
    | some chomp, _, _, some n => (chomp, some n, rest)
    | some chomp, _, _, none => (chomp, none, b :: rest)
    | none, some n, some chomp, _ => (chomp, some n, rest)
    | none, some n, none, _ => (.clip, some n, b :: rest)
    | none, none, _, _ => (.clip, none, cs)
  | [a] =>
    match chomp? a, increment? a with
    | some chomp, _ => (chomp, none, [])
    | none, some n => (.clip, some n, [])
    | none, none => (.clip, none, cs)
  | [] => (.clip, none, [])

/-- The indentation of a block: the widest of its leading lines, up to the first
that is not empty.  A tab may not stand in it. -/
def widestLead? (widest column : Nat) : List Char → Option Nat
  | [] => some (max widest column)
  | c :: rest =>
    if c = ' ' then widestLead? widest (column + 1) rest
    else if c = '\t' then none
    else if isLineBreak c then widestLead? (max widest column) 0 rest
    else some (max widest column)

/-- A block scalar that is being read. -/
structure BlockDraft where
  /-- Text up to the last line, in reverse. -/
  read : List Char
  /-- Line break after the last line. -/
  lastBreak : List Char
  /-- Further line breaks, in reverse. -/
  moreBreaks : List Char
  /-- Does the last line begin with a blank? -/
  blankLead : Bool

namespace BlockDraft

def start : BlockDraft := ⟨[], [], [], false⟩

/-- Begins a line whose first character is given: joins it to the text before,
in a folded block by a space where one line break is between them. -/
def beginLine (d : BlockDraft) (folded : Bool) (first : Char) : BlockDraft :=
  let joined :=
    if folded && d.lastBreak = ['\n'] && !d.blankLead && !isBlank first then
      if d.moreBreaks.isEmpty then ' ' :: d.read else d.read
    else d.lastBreak ++ d.read
  ⟨d.moreBreaks ++ joined, [], [], isBlank first⟩

/-- The text, with its last line breaks as the chomp says. -/
def finish (d : BlockDraft) (chomp : Chomp) : String :=
  let kept := if chomp = .strip then d.read else d.lastBreak ++ d.read
  let kept := if chomp = .keep then d.moreBreaks ++ kept else kept
  String.ofList kept.reverse

end BlockDraft

/-- Reads the lines of a block with an indentation; `inLine` inside of one. -/
def readLines (folded : Bool) (chomp : Chomp) (indent : Nat) (m : Mark) (d : BlockDraft)
    (inLine : Bool) : List Char → Option (String × Cursor)
  | [] => some (d.finish chomp, ⟨[], m⟩)
  | c :: rest =>
    if inLine then
      if isLineBreak c then
        readLines folded chomp indent m.nextLine { d with lastBreak := [c] } false rest
      else readLines folded chomp indent m.next { d with read := c :: d.read } true rest
    else if m.column < indent && c = ' ' then readLines folded chomp indent m.next d false rest
    else if m.column < indent && c = '\t' then none
    else if isLineBreak c then
      readLines folded chomp indent m.nextLine { d with moreBreaks := c :: d.moreBreaks } false rest
    else if m.column = indent then
      let d := d.beginLine folded c
      readLines folded chomp indent m.next { d with read := c :: d.read } true rest
    else some (d.finish chomp, ⟨c :: rest, m⟩)

/-- Reads a block scalar after its bar, inside something indented by `parent`. -/
def readBlock (folded : Bool) (parent : Int) (m : Mark) (cs : List Char) :
    Option (String × Cursor) := do
  let (chomp, increment, tail) := blockMarks cs
  let body ← passLine? false m tail
  let indent ←
    match increment with
    | some n => some (parent.toNat + n)
    | none => (widestLead? 0 0 body.rest).map fun widest => max widest (max (parent + 1).toNat 1)
  readLines folded chomp indent body.mark .start false body.rest

end FigureData.Yaml
