/-
  Splitting a YAML text into tokens.

  The columns of the open blocks are kept on a stack: a token at a smaller
  column ends the inner ones.  Where a name may begin, the place is remembered
  until a colon shows that it was a name; the name and its colon stand on one
  line, at most `maxNameLength` characters apart.  Brackets remember a place of
  their own.
-/
import FigureData.Yaml.Scalar
import FigureData.Yaml.Token

namespace FigureData.Yaml

/-! ## State -/

/-- A place where a name may have begun. -/
structure NameStart where
  mark : Mark
  /-- In the column of its block, what begins has to be a name. -/
  isOwed : Bool
  /-- How many tokens stand before it. -/
  tokensBefore : Nat

/-- Most characters from the begin of a name to its colon. -/
def maxNameLength : Nat := 1024

/-- Can what began before no longer be a name here? -/
def NameStart.isPast (s : NameStart) (here : Mark) : Bool :=
  s.mark.line < here.line || s.mark.offset + maxNameLength < here.offset

structure Lexer where
  cursor : Cursor
  tokens : Array Token := #[]
  /-- The columns of the open blocks, the innermost first. -/
  columns : List Nat := []
  /-- May a name begin here? -/
  mayName : Bool := true
  /-- Where a name may have begun. -/
  start : Option NameStart := none
  /-- The same outside of every open bracket, the innermost first. -/
  outer : List (Option NameStart) := []
  /-- The names of anchors with their numbers. -/
  anchors : List (String × Nat) := []

namespace Lexer

def inFlow (l : Lexer) : Bool := !l.outer.isEmpty

def mark (l : Lexer) : Mark := l.cursor.mark

/-- The column of the innermost block, −1 outside of all. -/
def indent (l : Lexer) : Int :=
  match l.columns with
  | [] => -1
  | column :: _ => column

def emit (l : Lexer) (t : Token) : Lexer := { l with tokens := l.tokens.push t }

/-- Emits a token of some characters. -/
def pass (l : Lexer) (length : Nat) (mayName : Bool) (t : Token) : Lexer :=
  { l.emit t with cursor := l.cursor.skip length, mayName }

/-- Emits a token that ends at another place. -/
def passTo (l : Lexer) (cursor : Cursor) (mayName : Bool) (t : Token) : Lexer :=
  { l.emit t with cursor, mayName }

/-- Goes to the next token. -/
def toToken (l : Lexer) : Lexer :=
  let (cursor, mayName) := Yaml.toToken l.inFlow l.mayName false l.mark l.cursor.rest
  { l with cursor, mayName }

/-! ## Blocks -/

/-- Ends the blocks at columns greater than one. -/
def endBlocks (column : Int) : List Nat → Array Token → List Nat × Array Token
  | [], tokens => ([], tokens)
  | c :: outer, tokens =>
    if column < c then endBlocks column outer (tokens.push .dedent) else (c :: outer, tokens)

/-- Ends the blocks at greater columns; brackets keep all open. -/
def dedent (l : Lexer) (column : Int) : Lexer :=
  if l.inFlow then l
  else
    let (columns, tokens) := endBlocks column l.columns l.tokens
    { l with columns, tokens }

/-- Begins a block here, unless one is open at this column or inside brackets. -/
def indentTo (l : Lexer) (t : Token) : Lexer :=
  if !l.inFlow && l.indent < l.mark.column then
    { l.emit t with columns := l.mark.column :: l.columns }
  else l

/-! ## Names -/

/-- Forgets a place where a name had to begin in vain. -/
def NameStart.forget? : Option NameStart → Option (Option NameStart)
  | some s => if s.isOwed then none else some none
  | none => some none

/-- Forgets a place that is past. -/
def NameStart.expire? (here : Mark) : Option NameStart → Option (Option NameStart)
  | some s => if s.isPast here then forget? (some s) else some (some s)
  | none => some none

/-- Forgets all places that are past. -/
def expire? (l : Lexer) : Option Lexer := do
  return { l with
    start := ← NameStart.expire? l.mark l.start
    outer := ← l.outer.mapM (NameStart.expire? l.mark) }

/-- Forgets where a name may have begun. -/
def forget? (l : Lexer) : Option Lexer :=
  (NameStart.forget? l.start).map fun start => { l with start }

/-- Remembers the place where a name may begin. -/
def remember? (l : Lexer) : Option Lexer :=
  if l.mayName then
    l.forget?.map fun l => { l with
      start := some {
        mark := l.mark
        isOwed := !l.inFlow && l.indent = l.mark.column
        tokensBefore := l.tokens.size } }
  else some l

/-- Announces the name that began at a place, and the record that begins with it. -/
def announce (l : Lexer) (s : NameStart) : Lexer :=
  let l : Lexer :=
    { l with tokens := l.tokens.insertIdxIfInBounds s.tokensBefore .name, start := none }
  if !l.inFlow && l.indent < s.mark.column then
    { l with
      tokens := l.tokens.insertIdxIfInBounds s.tokensBefore .indentRecord
      columns := s.mark.column :: l.columns }
  else l

/-! ## Anchors -/

/-- Gives a name the next number. -/
def anchor (l : Lexer) (name : String) : Lexer × Nat :=
  let number := l.anchors.length
  ({ l with anchors := (name, number) :: l.anchors.filter fun a => a.1 ≠ name }, number)

/-! ## Tokens -/

/-- A percent sign at the front of a line, or the mark of a document. -/
def readEdge (l : Lexer) : Option Lexer := do
  let l ← (l.dedent (-1)).forget?
  if l.cursor.isAt '%' then
    let (d, cursor) ← readDirective (l.cursor.skip 1)
    return l.passTo cursor false (.directive d)
  else return l.pass 3 false (if l.cursor.isAt '-' then .documentBegin else .documentEnd)

def readOpen (l : Lexer) (t : Token) : Option Lexer := do
  let l ← l.remember?
  return { l.pass 1 true t with start := none, outer := l.start :: l.outer }

/-- A closing bracket; one that was not opened is left to the reader of nodes. -/
def readClose (l : Lexer) (t : Token) : Option Lexer := do
  let l ← l.forget?
  match l.outer with
  | [] => return l.pass 1 false t
  | start :: outer => return { l.pass 1 false t with start, outer }

def readComma (l : Lexer) : Option Lexer := l.forget?.map fun l => l.pass 1 true .comma

/-- A hyphen before an item; a block of items begins where a name may. -/
def readHyphen (l : Lexer) : Option Lexer :=
  if !l.inFlow && !l.mayName then none
  else (l.indentTo .indentList).forget?.map fun l => l.pass 1 true .hyphen

/-- A question mark before a name. -/
def readQuestion (l : Lexer) : Option Lexer :=
  if !l.inFlow && !l.mayName then none
  else (l.indentTo .indentRecord).forget?.map fun l => l.pass 1 (!l.inFlow) .name

/-- A colon after a name; without one it stands where a name may. -/
def readColon (l : Lexer) : Option Lexer :=
  match l.start with
  | some s => some ((l.announce s).pass 1 false .colon)
  | none =>
    if !l.inFlow && !l.mayName then none
    else some ((l.indentTo .indentRecord).pass 1 (!l.inFlow) .colon)

def readAlias (l : Lexer) : Option Lexer := do
  let l ← l.remember?
  let (name, cursor) ← Yaml.readAnchor (l.cursor.skip 1)
  return l.passTo cursor false (.alias (← l.anchors.lookup name))

def readAnchor (l : Lexer) : Option Lexer := do
  let l ← l.remember?
  let (name, cursor) ← Yaml.readAnchor (l.cursor.skip 1)
  let (l, number) := l.anchor name
  return l.passTo cursor false (.anchor number)

def readTag (l : Lexer) : Option Lexer := do
  let l ← l.remember?
  let (form, cursor) ← Yaml.readTag l.inFlow (l.cursor.skip 1)
  return l.passTo cursor false (.tag form)

/-- A bar, and the lines below it. -/
def readLines (l : Lexer) (folded : Bool) : Option Lexer := do
  let l ← l.forget?
  let (text, cursor) ← readBlock folded l.indent l.mark.next (l.cursor.rest.drop 1)
  return l.passTo cursor true (.scalar (if folded then .folded else .literal) text)

def readQuoted (l : Lexer) (double : Bool) : Option Lexer := do
  let l ← l.remember?
  let body := l.cursor.rest.drop 1
  let (text, cursor) ←
    if double then readDoubleQuoted l.mark.next [] .nothing .body body
    else readSingleQuoted l.mark.next [] .nothing body
  return l.passTo cursor false (.scalar .quoted text)

def readWords (l : Lexer) : Option Lexer := do
  let l ← l.remember?
  let plain ← readPlain l.inFlow (l.indent + 1) l.mark [] .nothing l.cursor.rest
  return l.passTo plain.cursor plain.endsLine (.scalar .plain plain.text)

/-- Is the indicator of an entry here?  Between brackets it need not stand alone. -/
def isAtIndicator (l : Lexer) (c : Char) : Bool :=
  if l.inFlow then l.cursor.isAt c else l.cursor.isAtIndicator c

/-- Reads the token that begins here. -/
def readToken (l : Lexer) : Option Lexer :=
  if (l.mark.column = 0 && l.cursor.isAt '%') || l.cursor.isAtDocumentMark then l.readEdge
  else if l.cursor.isAt '[' then l.readOpen .openBracket
  else if l.cursor.isAt '\x7b' then l.readOpen .openBrace
  else if l.cursor.isAt ']' then l.readClose .closeBracket
  else if l.cursor.isAt '\x7d' then l.readClose .closeBrace
  else if l.cursor.isAt ',' then l.readComma
  else if l.cursor.isAtIndicator '-' then l.readHyphen
  else if l.isAtIndicator '?' then l.readQuestion
  else if l.isAtIndicator ':' then l.readColon
  else if l.cursor.isAt '*' then l.readAlias
  else if l.cursor.isAt '&' then l.readAnchor
  else if l.cursor.isAt '!' then l.readTag
  else if l.cursor.isAt '|' && !l.inFlow then l.readLines false
  else if l.cursor.isAt '>' && !l.inFlow then l.readLines true
  else if l.cursor.isAt '\'' then l.readQuoted false
  else if l.cursor.isAt '"' then l.readQuoted true
  else if beginsPlain l.inFlow l.cursor.rest then l.readWords
  else none

/-- Reads all tokens; every one takes fuel. -/
def readAll : Nat → Lexer → Option (List Token)
  | 0, _ => none
  | fuel + 1, l => do
    let l ← l.toToken.expire?
    let l := l.dedent l.mark.column
    if l.cursor.rest.isEmpty then
      let l ← (l.dedent (-1)).forget?
      return l.tokens.toList
    else readAll fuel (← l.readToken)

end Lexer

/-- The tokens of a text.  Every token has a character of its own, so that the
fuel is enough. -/
def tokens? (cs : List Char) : Option (List Token) :=
  if cs.all isAllowed then Lexer.readAll (cs.length + 1) { cursor := { rest := unifyBreaks cs } }
  else none

end FigureData.Yaml
