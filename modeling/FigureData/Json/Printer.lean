/-
  Writing JSON text: compact, and canonical.

  Canonical text has the members of every object in ascending order of their
  names, one element or member a line with two spaces of indentation, and a
  line end at the end, so equal documents give equal texts.
-/
import FigureData.Json.Document
import FigureData.Number.Layout

namespace FigureData.Json

/-! ## Leaves -/

def hexDigit (n : Nat) : Char := Nat.digitChar n

/-- A character inside a string: quote, backslash and control characters are escaped. -/
def escapeChar (c : Char) : List Char :=
  match c with
  | '"' => ['\\', '"']
  | '\\' => ['\\', '\\']
  | '\x08' => ['\\', 'b']
  | '\t' => ['\\', 't']
  | '\n' => ['\\', 'n']
  | '\x0c' => ['\\', 'f']
  | '\r' => ['\\', 'r']
  | _ =>
    if c.toNat < 0x20 then
      ['\\', 'u', '0', '0', hexDigit (c.toNat / 16), hexDigit (c.toNat % 16)]
    else [c]

def writeString (s : String) : List Char := '"' :: (s.toList.flatMap escapeChar ++ ['"'])

/-- Doubles are positional from 0.00001 up to below 10^16, whole ones end in
`.0`, a positive exponent carries a plus sign, and ties go to even digits. -/
def numberLayout : Layout := ⟨fun point => -5 < point && point ≤ 16, true, true, .even⟩

/-- A double; infinities and the value that is not a number have no form of
their own and are written as null. -/
def writeFloat (x : Float) : List Char :=
  if x.isFinite then numberLayout.writeFinite x else "null".toList

def writeInt (n : Int) : List Char :=
  if n < 0 then '-' :: Digits.ofNat n.natAbs else Digits.ofNat n.natAbs

def writeBool (b : Bool) : List Char := if b then "true".toList else "false".toList

/-! ## Compact text -/

mutual

/-- Text without blanks, members in the order they stand. -/
def writeCompact : Json → List Char
  | .null => "null".toList
  | .bool b => writeBool b
  | .int n => writeInt n
  | .float x => writeFloat x
  | .string s => writeString s
  | .array items => '[' :: (writeItems items ++ [']'])
  | .object members => '\x7b' :: (writeMembers members ++ ['\x7d'])

def writeItems : List Json → List Char
  | [] => []
  | [j] => writeCompact j
  | j :: rest => writeCompact j ++ ',' :: writeItems rest

def writeMembers : List (String × Json) → List Char
  | [] => []
  | [(name, j)] => writeString name ++ ':' :: writeCompact j
  | (name, j) :: rest => writeString name ++ ':' :: (writeCompact j ++ ',' :: writeMembers rest)

end

def compact (j : Json) : String := String.ofList (writeCompact j)

/-! ## Indented text -/

/-- A line end and the indentation of the next line. -/
def newLine (level : Nat) : List Char := '\n' :: List.replicate (2 * level) ' '

mutual

/-- Indented text of a value that stands at a level, members in the order they stand. -/
def writeIndented (level : Nat) : Json → List Char
  | .null => "null".toList
  | .bool b => writeBool b
  | .int n => writeInt n
  | .float x => writeFloat x
  | .string s => writeString s
  | .array [] => ['[', ']']
  | .array (j :: rest) =>
    '[' :: (newLine (level + 1) ++ writeIndented (level + 1) j ++
      (indentItems (level + 1) rest ++ newLine level ++ [']']))
  | .object [] => ['\x7b', '\x7d']
  | .object ((name, j) :: rest) =>
    '\x7b' :: (newLine (level + 1) ++ writeString name ++ ':' :: ' ' ::
      (writeIndented (level + 1) j ++
        (indentMembers (level + 1) rest ++ newLine level ++ ['\x7d'])))

/-- The elements after the first. -/
def indentItems (level : Nat) : List Json → List Char
  | [] => []
  | j :: rest => ',' :: (newLine level ++ writeIndented level j ++ indentItems level rest)

/-- The members after the first. -/
def indentMembers (level : Nat) : List (String × Json) → List Char
  | [] => []
  | (name, j) :: rest =>
    ',' :: (newLine level ++ writeString name ++ ':' :: ' ' :: (writeIndented level j ++
      indentMembers level rest))

end

/-- Canonical text of a document. -/
def canonical (j : Json) : String := String.ofList (writeIndented 0 j.sorted ++ ['\n'])

end FigureData.Json
