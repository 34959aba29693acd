/-
  Anchors, tags and directives of a YAML text.

  A tag is a handle and a suffix; a handle stands for the octets that the
  directives give it.  Octets may be written as escapes, and a zero octet ends
  what it stands in.
-/
import FigureData.Bytes
import FigureData.Yaml.Cursor
import FigureData.Yaml.Plain

namespace FigureData.Yaml

/-- A tag, whose octets need not be text. -/
abbrev Tag := Bytes

namespace Tag

/-- The tag that is written as a lone exclamation mark. -/
def lone : Tag := Bytes.ofText "!"

/-- A tag of the standard types. -/
def standard (type : String) : Tag := Bytes.ofText ("tag:yaml.org,2002:" ++ type)

end Tag

/-! ## Words -/

def isWordChar (c : Char) : Bool := c.isAlphanum || c = '-' || c = '_'

/-- Characters of a tag. -/
def isTagChar (c : Char) : Bool := isWordChar c || c ∈ ";/?:@&=+$.%!~*'()".toList

/-- Characters of a tag that is given in full. -/
def isFullTagChar (c : Char) : Bool := isTagChar c || c = ',' || c = '[' || c = ']'

/-- The longest run of characters of a class, and the place behind it. -/
def Cursor.takeRun (s : Cursor) (is : Char → Bool) : List Char × Cursor :=
  let run := s.rest.takeWhile is
  (run, s.skip run.length)

/-! ## Anchors -/

/-- May an anchor end here? -/
def atAnchorEnd (cs : List Char) : Bool :=
  atWordEnd cs || cs.head?.any fun c => c ∈ "?:,]\x7d%@\x60".toList

/-- Reads the name of an anchor or an alias after its sign. -/
def readAnchor (s : Cursor) : Option (String × Cursor) :=
  let (name, after) := s.takeRun isWordChar
  if !name.isEmpty && atAnchorEnd after.rest then some (String.ofList name, after) else none

/-! ## Octets -/

/-- How many octets a character has by its first one. -/
def octetCount? (first : Nat) : Option Nat :=
  if first < 0x80 then some 1
  else if first < 0xC0 then none
  else if first < 0xE0 then some 2
  else if first < 0xF0 then some 3
  else if first < 0xF8 then some 4
  else none

/-- Resolves escapes of octets.  The escapes of one character stand together:
`owed` counts the octets it still lacks. -/
def octets? (owed : Nat) : List Char → Option Bytes
  | '%' :: a :: b :: rest => do
    let octet := 16 * (← digitIn? 16 a) + (← digitIn? 16 b)
    let owed ←
      if owed = 0 then (octetCount? octet).map (· - 1)
      else if 0x80 ≤ octet ∧ octet < 0xC0 then some (owed - 1)
      else none
    return UInt8.ofNat octet :: (← octets? owed rest)
  | c :: rest => do
    if c = '%' || owed ≠ 0 then none
    else return UInt8.ofNat c.toNat :: (← octets? 0 rest)
  | [] => if owed = 0 then some [] else none

/-- The octets of a written suffix, up to a zero. -/
def suffix? (cs : List Char) : Option Tag := (octets? 0 cs).map (List.takeWhile (· ≠ 0))

/-! ## Tags -/

/-- A tag as it is written. -/
inductive TagForm where
  /-- A tag that is there without a handle. -/
  | full (tag : Tag)
  | short (handle : String) (suffix : Tag)

/-- A tag given in full, after its opening bracket. -/
def readFullTag (s : Cursor) : Option (TagForm × Cursor) := do
  let (run, after) := s.takeRun isFullTagChar
  if run.isEmpty || !after.isAt '>' then none
  else return (.full (← suffix? run), after.skip 1)

/-- A tag after its exclamation mark: a word between two marks is a handle, and
without one the mark itself is.  A mark without a suffix is a tag as well. -/
def readShortTag (s : Cursor) : Option (TagForm × Cursor) := do
  let (word, after) := s.takeRun isWordChar
  if after.isAt '!' then
    let (run, after) := (after.skip 1).takeRun isTagChar
    if run.isEmpty then none
    else return (.short (String.ofList ('!' :: word ++ ['!'])) (← suffix? run), after)
  else
    let (run, after) := s.takeRun isTagChar
    let suffix ← suffix? run
    return (if suffix.isEmpty then .full Tag.lone else .short "!" suffix, after)

/-- Reads a tag after its exclamation mark. -/
def readTag (inFlow : Bool) (s : Cursor) : Option (TagForm × Cursor) := do
  let (tag, after) ← if s.isAt '<' then readFullTag (s.skip 1) else readShortTag s
  if atWordEnd after.rest || (inFlow && after.isAt ',') then return (tag, after) else none

/-! ## Handles -/

/-- What the handles of tags stand for. -/
abbrev Handles := List (String × Tag)

/-- Handles that need no directive. -/
def standardHandles : Handles := [("!", Tag.lone), ("!!", Tag.standard "")]

/-- The tag that a written one stands for; its handle has to be known. -/
def Handles.tag? (handles : Handles) : TagForm → Option Tag
  | .full tag => some tag
  | .short handle suffix => (handles.lookup handle).map (· ++ suffix)

/-! ## Directives -/

/-- What stands before a document. -/
inductive Directive where
  /-- The version is 1.1 or 1.2. -/
  | version
  | handle (name : String) (start : Tag)

/-- A number of at most nine digits. -/
def readShortNumber (s : Cursor) : Option (Nat × Cursor) := do
  let (digits, after) := s.takeRun Char.isDigit
  if digits.length ≤ 9 then return (← digitsIn? 10 digits, after) else none

/-- Reads a version, 1.1 or 1.2. -/
def readVersion (s : Cursor) : Option (Directive × Cursor) := do
  let (major, after) ← readShortNumber s
  if !after.isAt '.' then none
  else
    let (minor, after) ← readShortNumber (after.skip 1)
    if major = 1 ∧ (minor = 1 ∨ minor = 2) then some (.version, after) else none

/-- Reads a handle and what it stands for. -/
def readHandle (s : Cursor) : Option (Directive × Cursor) := do
  let (word, after) := (s.skip 1).takeRun isWordChar
  let (handle, after) ←
    if after.isAt '!' then some ('!' :: word ++ ['!'], after.skip 1)
    else if word.isEmpty then some (['!'], after)
    else none
  let (blanks, start) := after.takeRun isBlank
  let (run, after) := start.takeRun isFullTagChar
  if !s.isAt '!' || blanks.isEmpty || run.isEmpty || !atWordEnd after.rest then none
  else return (.handle (String.ofList handle) (← suffix? run), after)

/-- Reads a directive after its percent sign, to the end of its line. -/
def readDirective (s : Cursor) : Option (Directive × Cursor) := do
  let (name, after) := s.takeRun isWordChar
  let (blanks, start) := after.takeRun isBlank
  if blanks.isEmpty then none
  else
    let (directive, after) ←
      match String.ofList name with
      | "YAML" => readVersion start
      | "TAG" => readHandle start
      | _ => none
    return (directive, ← passLine? false after.mark after.rest)

end FigureData.Yaml
