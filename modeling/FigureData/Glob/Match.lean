/-
  Matching names against patterns, byte by byte.

  A name has a place in front of each byte and one at its end.  A token takes
  the places where it may begin to those where it may end; all of them are
  followed at once, so that matching takes no backtracking.
-/
import FigureData.Bytes
import FigureData.Glob.Nesting
import FigureData.Text.Split

namespace FigureData.Glob

def slash : UInt8 := 0x2F

/-! ## Places -/

/-- Which places of a name have been reached, from the front on. -/
abbrev Reached := List Bool

/-- The front of a name alone. -/
def front (name : Bytes) : Reached := true :: name.map fun _ => false

/-- One byte further, past a byte that passes `p`. -/
def pastByte (p : UInt8 → Bool) (name : Bytes) (reached : Reached) : Reached :=
  false :: List.zipWith (fun b here => here && p b) name reached

/-- Past some given bytes. -/
def pastBytes (bytes name : Bytes) (reached : Reached) : Reached :=
  bytes.foldl (fun reached b => pastByte (· == b) name reached) reached

/-- The first of the places and all behind it. -/
def fromFirst : Reached → Reached
  | [] => []
  | true :: rest => true :: rest.map fun _ => true
  | false :: rest => false :: fromFirst rest

/-- Past any bytes and a slash. -/
def pastSlashes (name : Bytes) (reached : Reached) : Reached :=
  pastByte (· == slash) name (fromFirst reached)

/-- The places of either set. -/
def either (a b : Reached) : Reached := List.zipWith (· || ·) a b

/-- Is the end of the name among the places? -/
def atEnd (reached : Reached) : Bool := reached.getLast? = some true

theorem length_front (name : Bytes) : (front name).length = name.length + 1 := by
  simp [front]

theorem length_pastByte {p : UInt8 → Bool} {name : Bytes} {reached : Reached}
    (h : reached.length = name.length + 1) :
    (pastByte p name reached).length = name.length + 1 := by
  simp [pastByte, h]

theorem length_fromFirst (reached : Reached) : (fromFirst reached).length = reached.length := by
  induction reached with
  | nil => rfl
  | cons here rest ih => cases here <;> simp [fromFirst, ih]

/-! ## Classes -/

/-- Ranges of bytes that a range of characters stands for.  Of a character of
several bytes only one takes part in the range; the others are elements. -/
def byteRanges (range : Char × Char) : List (UInt8 × UInt8) :=
  let low := Bytes.ofText (String.singleton range.1)
  let high := Bytes.ofText (String.singleton range.2)
  if range.1 = range.2 then low.map fun b => (b, b)
  else
    (low.dropLast.map fun b => (b, b)) ++ [(low.getLastD 0, high.headD 0)] ++
      (high.drop 1).map fun b => (b, b)

def classHolds (negated : Bool) (ranges : List (Char × Char)) (b : UInt8) : Bool :=
  let inside := (ranges.flatMap byteRanges).any fun r => decide (r.1 ≤ b) && decide (b ≤ r.2)
  inside != negated

/-! ## Matching -/

mutual

/-- Where what a token stands for may end. -/
def Token.advance (name : Bytes) : Token → Reached → Reached
  | .literal c, reached => pastBytes (Bytes.ofText (String.singleton c)) name reached
  | .any, reached => pastByte (fun _ => true) name reached
  | .zeroOrMore, reached => fromFirst reached
  | .foldersBefore, reached => either reached (pastSlashes name reached)
  | .everythingBelow, reached => fromFirst (pastByte (· == slash) name reached)
  | .foldersBetween, reached =>
    let inside := pastByte (· == slash) name reached
    either inside (pastSlashes name inside)
  | .oneOf negated ranges, reached => pastByte (classHolds negated ranges) name reached
  | .choice branches, reached =>
    if allBlank branches then reached else advanceChoice name branches reached

/-- Where what a sequence of tokens stands for may end. -/
def advanceAll (name : Bytes) : List Token → Reached → Reached
  | [], reached => reached
  | t :: rest, reached => advanceAll name rest (t.advance name reached)

/-- Where one of the branches may end; blank ones do not count. -/
def advanceChoice (name : Bytes) : List (List Token) → Reached → Reached
  | [], reached => reached.map fun _ => false
  | tokens :: rest, reached =>
    if blankTokens tokens then advanceChoice name rest reached
    else either (advanceAll name tokens reached) (advanceChoice name rest reached)

end

/-! ## Names as a whole -/

def isLiteral : Token → Bool
  | .literal _ => true
  | _ => false

/-- The tokens after folders and any bytes at the front, when either is there. -/
def withoutLead : List Token → List Token
  | .foldersBefore :: .zeroOrMore :: rest => rest
  | .foldersBefore :: rest => rest
  | .zeroOrMore :: rest => rest
  | tokens => tokens

/-- Literal text in one folder. -/
def isNameText (tokens : List Token) : Bool :=
  tokens.all fun t =>
    match t with
    | .literal c => c != '/'
    | _ => false

/-- A pattern that is decided by the last component of a name or by its
extension, which the name of a parent folder does not have. -/
def needsComponent (tokens : List Token) : Bool :=
  match tokens with
  | .foldersBefore :: rest => isNameText rest || ruled (withoutLead tokens)
  | _ => ruled (withoutLead tokens) && !tokens.all isLiteral
where
  /-- Not literal text of at least two characters. -/
  ruled (text : List Token) : Bool := !text.all isLiteral || text.length < 2

/-- Does a pattern end in a literal dot? -/
def endsInDot (tokens : List Token) : Bool :=
  match tokens.getLast? with
  | some (.literal '.') => true
  | _ => false

/-- Does a name stand for a parent folder? -/
def isParent (name : String) : Bool := (Text.splitAt '/' name.toList).getLast? = some ['.', '.']

/-- Does a name as a whole match a pattern? -/
def matchesName (tokens : List Token) (name : String) : Bool :=
  match tokens with
  | [.foldersBefore] => true
  | _ =>
    let bytes := Bytes.ofText name
    atEnd (advanceAll bytes tokens (front bytes)) &&
      !(isParent name && endsInDot tokens && needsComponent tokens)

end FigureData.Glob
