/-
  Places in a YAML text, and the way to the next token.

  Line breaks are unified before reading: LF stands for CR LF, CR and NEL too,
  while the line and paragraph separators stay.
-/
namespace FigureData.Yaml

/-! ## Characters -/

/-- May a character stand in a YAML text? -/
def isAllowed (c : Char) : Bool :=
  let n := c.toNat
  n = 0x09 || n = 0x0A || n = 0x0D || (0x20 ≤ n && n ≤ 0x7E) || n = 0x85 ||
    (0xA0 ≤ n && n ≠ 0xFFFE && n ≠ 0xFFFF)

/-- The byte order mark, which does not count at the front of a line. -/
def orderMark : Char := '\uFEFF'

def isBlank (c : Char) : Bool := c = ' ' || c = '\t'

/-- A line break after unification. -/
def isLineBreak (c : Char) : Bool := c = '\n' || c = '\u2028' || c = '\u2029'

def isBlankOrBreak (c : Char) : Bool := isBlank c || isLineBreak c

/-- Does a word end here, at a blank, a line break or the end of the text? -/
def atWordEnd : List Char → Bool
  | [] => true
  | c :: _ => isBlankOrBreak c

/-- Writes every line break as a line feed. -/
def unifyBreaks : List Char → List Char
  | '\r' :: '\n' :: rest => '\n' :: unifyBreaks rest
  | '\r' :: rest => '\n' :: unifyBreaks rest
  | '\x85' :: rest => '\n' :: unifyBreaks rest
  | c :: rest => c :: unifyBreaks rest
  | [] => []

/-! ## Cursors -/

/-- A place in a text, counted from 0. -/
structure Mark where
  line : Nat := 0
  column : Nat := 0
  offset : Nat := 0

namespace Mark

def next (m : Mark) : Mark := ⟨m.line, m.column + 1, m.offset + 1⟩

def nextLine (m : Mark) : Mark := ⟨m.line + 1, 0, m.offset + 1⟩

end Mark

/-- What is left of a text, and the place where it begins. -/
structure Cursor where
  rest : List Char
  mark : Mark := {}

namespace Cursor

/-- Skips characters of the current line. -/
def skip (s : Cursor) : Nat → Cursor
  | 0 => s
  | n + 1 =>
    match s.rest with
    | [] => s
    | _ :: rest => skip ⟨rest, s.mark.next⟩ n

def head? (s : Cursor) : Option Char := s.rest.head?

/-- Is the next character `c`? -/
def isAt (s : Cursor) (c : Char) : Bool := s.rest.head? = some c

/-- Is the next character `c`, standing alone? -/
def isAtIndicator (s : Cursor) (c : Char) : Bool := s.isAt c && atWordEnd (s.rest.drop 1)

/-- Does a text begin with the mark of three characters, standing alone? -/
def beginsWithMark (c : Char) (cs : List Char) : Bool :=
  [c, c, c].isPrefixOf cs && atWordEnd (cs.drop 3)

/-- Does the mark that begins or ends a document stand here? -/
def isAtDocumentMark (s : Cursor) : Bool :=
  s.mark.column = 0 && (beginsWithMark '-' s.rest || beginsWithMark '.' s.rest)

end Cursor

/-- Goes to the next line; only blanks and a comment may be left of this one. -/
def passLine? (inComment : Bool) (m : Mark) : List Char → Option Cursor
  | [] => some ⟨[], m⟩
  | c :: rest =>
    if isLineBreak c then some ⟨rest, m.nextLine⟩
    else if inComment || c = '#' then passLine? true m.next rest
    else if isBlank c then passLine? false m.next rest
    else none

/-- Goes over blanks, comments and line breaks.  Outside of brackets a new line
allows a name to begin (`mayName`), and where one may begin a tab is no blank. -/
def toToken (inFlow mayName inComment : Bool) (m : Mark) : List Char → Cursor × Bool
  | [] => (⟨[], m⟩, mayName)
  | c :: rest =>
    if isLineBreak c then toToken inFlow (mayName || !inFlow) false m.nextLine rest
    else if inComment || c = '#' then toToken inFlow mayName true m.next rest
    else if c = ' ' || (c = '\t' && (inFlow || !mayName)) || (c = orderMark && m.column = 0) then
      toToken inFlow mayName false m.next rest
    else (⟨c :: rest, m⟩, mayName)

end FigureData.Yaml
