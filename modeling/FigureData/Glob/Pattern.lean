/-
  Patterns of file names, and reading them.

  `?` stands for one byte and `*` for any bytes, a slash included.  `**` between
  slashes, or between a slash and an end, stands for whole folders.  `[a-z]`
  is a class, negated by `!` or `^` at its front, and `{a,b}` a choice.  A
  backslash makes the next character literal.
-/
namespace FigureData.Glob

/-! ## Tokens -/

inductive Token where
  | literal (c : Char)
  /-- One byte. -/
  | any
  /-- Any bytes. -/
  | zeroOrMore
  /-- Folders before the rest of the pattern. -/
  | foldersBefore
  /-- A slash and everything after it. -/
  | everythingBelow
  /-- A slash, or folders between two slashes. -/
  | foldersBetween
  /-- A byte of a class; the ranges include their ends. -/
  | oneOf (negated : Bool) (ranges : List (Char × Char))
  | choice (branches : List (List Token))
  deriving Inhabited

/-! ## Reading -/

/-- An open choice: the tokens before it and its finished branches, both in reverse. -/
structure OpenChoice where
  before : List Token
  branches : List (List Token)

/-- What a pattern has yielded so far. -/
structure Draft where
  /-- Tokens of the current branch, in reverse. -/
  tokens : List Token
  /-- Open choices, the innermost first. -/
  choices : List OpenChoice

namespace Draft

def start : Draft := ⟨[], []⟩

def push (d : Draft) (t : Token) : Draft := { d with tokens := t :: d.tokens }

def openChoice (d : Draft) : Draft := ⟨[], ⟨d.tokens, []⟩ :: d.choices⟩

/-- Begins the next branch of the innermost choice; a comma outside a choice is literal. -/
def nextBranch (d : Draft) : Draft :=
  match d.choices with
  | [] => d.push (.literal ',')
  | c :: outer => ⟨[], ⟨c.before, d.tokens.reverse :: c.branches⟩ :: outer⟩

def closeChoice? (d : Draft) : Option Draft :=
  match d.choices with
  | [] => none
  | c :: outer =>
    some ⟨.choice (d.tokens.reverse :: c.branches).reverse :: c.before, outer⟩

/-- Puts a token for folders in the place of the slash before it; one that
stands there already stays. -/
def absorb (d : Draft) (t : Token) : Draft :=
  match d.tokens with
  | .foldersBefore :: _ | .everythingBelow :: _ => d
  | _ :: rest => { d with tokens := t :: rest }
  | [] => d.push t

end Draft

/-- A class that is being read; ranges are in reverse. -/
structure DraftClass where
  negated : Bool
  ranges : List (Char × Char)
  /-- Is a range waiting for its end? -/
  inRange : Bool

namespace DraftClass

/-- Ends the last range at `c`, which may not lie before its beginning. -/
def extend? (k : DraftClass) (c : Char) : Option DraftClass :=
  match k.ranges with
  | (low, _) :: rest => if low ≤ c then some ⟨k.negated, (low, c) :: rest, false⟩ else none
  | [] => none

def add? (k : DraftClass) (c : Char) : Option DraftClass :=
  if k.inRange then k.extend? c else some { k with ranges := (c, c) :: k.ranges }

/-- The first character after the opening; a bracket or hyphen is an element there. -/
def first (negated : Bool) (c : Char) : DraftClass := ⟨negated, [(c, c)], false⟩

/-- The token of a class at its end; a range that still waits ends in a hyphen as element. -/
def token (k : DraftClass) : Token :=
  .oneOf k.negated (if k.inRange then ('-', '-') :: k.ranges else k.ranges).reverse

end DraftClass

/-- What the reader is inside of.  `before` is the character before the stars. -/
inductive Mode where
  | plain
  /-- After a backslash. -/
  | escape
  | star (before : Option Char)
  | twoStars (before : Option Char)
  /-- After the bracket that opens a class. -/
  | classOpen
  /-- After the mark that negates a class. -/
  | classNegated
  | inClass (k : DraftClass)

structure ReadState where
  draft : Draft
  mode : Mode
  /-- The last character read. -/
  last : Option Char

/-- A character outside of classes, escapes and stars. -/
def readPlain (d : Draft) (last : Option Char) (c : Char) : Option ReadState :=
  match c with
  | '?' => some ⟨d.push .any, .plain, some c⟩
  | '*' => some ⟨d, .star last, some c⟩
  | '[' => some ⟨d, .classOpen, some c⟩
  | '\x7b' => some ⟨d.openChoice, .plain, some c⟩
  | '\x7d' => d.closeChoice?.map fun d => ⟨d, .plain, some c⟩
  | ',' => some ⟨d.nextBranch, .plain, some c⟩
  | '\\' => some ⟨d, .escape, some c⟩
  | _ => some ⟨d.push (.literal c), .plain, some c⟩

/-- May two stars stand for folders after this character?  They may after a
slash, and inside a choice after a comma or an opening brace. -/
def startsFolders (d : Draft) (before : Option Char) : Bool :=
  match before with
  | some '/' => true
  | some ',' | some '\x7b' => !d.choices.isEmpty
  | _ => false

def twoPlainStars (d : Draft) : Draft := (d.push .zeroOrMore).push .zeroOrMore

/-- Two stars and the character after them. -/
def readTwoStars (d : Draft) (before : Option Char) (c : Char) : Option ReadState :=
  if d.tokens.isEmpty then
    if c = '/' then some ⟨d.push .foldersBefore, .plain, some c⟩
    else readPlain (twoPlainStars d) (some '*') c
  else if startsFolders d before then
    if c = '/' then some ⟨d.absorb .foldersBetween, .plain, some c⟩
    else if (c = ',' || c = '\x7d') && !d.choices.isEmpty then
      readPlain (d.absorb .everythingBelow) (some '*') c
    else readPlain (twoPlainStars d) (some '*') c
  else readPlain (twoPlainStars d) (some '*') c

/-- A character inside a class. -/
def readInClass (d : Draft) (k : DraftClass) (c : Char) : Option ReadState :=
  if c = ']' then some ⟨d.push k.token, .plain, some c⟩
  else if c = '-' && !k.inRange then some ⟨d, .inClass { k with inRange := true }, some c⟩
  else (k.add? c).map fun k => ⟨d, .inClass k, some c⟩

def readChar (s : ReadState) (c : Char) : Option ReadState :=
  match s.mode with
  | .plain => readPlain s.draft s.last c
  | .escape => some ⟨s.draft.push (.literal c), .plain, some c⟩
  | .star before =>
    if c = '*' then some ⟨s.draft, .twoStars before, some c⟩
    else readPlain (s.draft.push .zeroOrMore) (some '*') c
  | .twoStars before => readTwoStars s.draft before c
  | .classOpen =>
    if c = '!' || c = '^' then some ⟨s.draft, .classNegated, some c⟩
    else some ⟨s.draft, .inClass (.first false c), some c⟩
  | .classNegated => some ⟨s.draft, .inClass (.first true c), some c⟩
  | .inClass k => readInClass s.draft k c

/-- The end of a pattern, which may not lie inside a class, a choice or an escape. -/
def readEnd (s : ReadState) : Option (List Token) :=
  let d? :=
    match s.mode with
    | .plain => some s.draft
    | .star _ => some (s.draft.push .zeroOrMore)
    | .twoStars before =>
      if s.draft.tokens.isEmpty then some (s.draft.push .foldersBefore)
      else if startsFolders s.draft before then some (s.draft.absorb .everythingBelow)
      else some (twoPlainStars s.draft)
    | _ => none
  match d? with
  | some ⟨tokens, []⟩ => some tokens.reverse
  | _ => none

def readChars (s : ReadState) : List Char → Option (List Token)
  | [] => readEnd s
  | c :: rest => (readChar s c).bind fun next => readChars next rest

/-- The tokens of a pattern. -/
def read? (pattern : String) : Option (List Token) :=
  readChars ⟨.start, .plain, none⟩ pattern.toList

end FigureData.Glob
