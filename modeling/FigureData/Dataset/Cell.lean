/-
  Cells of a dataset and their order.

  Ascending, numbers come before texts, numbers in the total order of doubles
  and texts in byte order.  Missing cells come last in either direction.
-/
import FigureData.Number.Places
import FigureData.Wire.Fields
import FigureData.Wire.Value

namespace FigureData

inductive Cell where
  | text (value : String)
  | number (value : Float)
  | missing
  deriving DecidableEq

namespace Cell

instance : Inhabited Cell := ⟨missing⟩

/-- A cell for a value that may be no number. -/
def ofFloat (x : Float) : Cell := if x.isNaN then .missing else .number x

def ofOption (x : Option Float) : Cell :=
  match x with
  | some x => ofFloat x
  | none => .missing

theorem ofOption_some {x : Float} (h : x.isNaN = false) : ofOption (some x) = .number x := by
  show ofFloat x = .number x
  unfold ofFloat
  rw [h]
  rfl

def number? : Cell → Option Float
  | .number x => some x
  | _ => none

def isMissing : Cell → Bool
  | .missing => true
  | _ => false

/-- Text of a cell in the table; a missing cell is empty. -/
def render? (precision : Option Nat) : Cell → Option String
  | .text s => some s
  | .number x => writeNumber? precision x
  | .missing => some ""

/-! ## Order -/

/-- May `a` stand before `b` in ascending order, neither being missing? -/
def ascendingLe : Cell → Cell → Bool
  | .number x, .number y => Binary64.totalLe x y
  | .number _, _ => true
  | .text s, .text t => decide (s ≤ t)
  | .text _, _ => false
  | .missing, _ => true

/-- May `a` stand before `b`? -/
def le (ascending : Bool) (a b : Cell) : Bool :=
  if b.isMissing then true
  else if a.isMissing then false
  else if ascending then ascendingLe a b else ascendingLe b a

/-! ## Wire -/

/-- The fields read from text. -/
def wanted : Json.Selection := .tagged "kind" "value" .all

def encode : Cell → Wire
  | .text s => .record [("kind", .text "text"), ("value", .text s)]
  | .number x => .record [("kind", .text "number"), ("value", .float x)]
  | .missing => .record [("kind", .text "missing")]

def decode? (j : Json) : Option Cell :=
  match j.adjacent? "kind" "value" with
  | some ("text", some value) => value.text?.map .text
  | some ("number", some value) => value.number?.map .number
  | some ("missing", none) => some .missing
  | some ("missing", some .null) => some .missing
  | _ => none

end Cell

end FigureData
