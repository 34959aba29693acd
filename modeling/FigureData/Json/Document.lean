/-
  JSON documents.

  Members of an object are kept in the order of the text, repeated names
  included.  `sorted` gives the meaning of a document as free-form data:
  members in ascending order of their names, and of a repeated name the last
  value.
-/
import FigureData.Number.Binary64
import FigureData.SortedMap

namespace FigureData

/-- A JSON document.  Numbers written without point and exponent that fit 64
bits are integers, all others are doubles. -/
inductive Json where
  | null
  | bool (value : Bool)
  | int (value : Int)
  | float (value : Float)
  | string (value : String)
  | array (items : List Json)
  | object (members : List (String × Json))

namespace Json

instance : Inhabited Json := ⟨null⟩

/-! ## Sorted documents -/

mutual

/-- Sorts the members of every object; a later member replaces an earlier one
of the same name. -/
def sorted : Json → Json
  | .array items => .array (sortItems items)
  | .object members => .object (sortMembers [] members)
  | j => j

def sortItems : List Json → List Json
  | [] => []
  | j :: rest => sorted j :: sortItems rest

/-- Enters members one after the other into a sorted list. -/
def sortMembers (acc : List (String × Json)) : List (String × Json) → List (String × Json)
  | [] => acc
  | (name, j) :: rest => sortMembers (insertEntry name (sorted j) acc) rest

end

/-! ## Parts of a document -/

/-- Member of an object by its name. -/
def member? (name : String) : Json → Option Json
  | .object members => members.lookup name
  | _ => none

def items? : Json → Option (List Json)
  | .array items => some items
  | _ => none

def text? : Json → Option String
  | .string s => some s
  | _ => none

def isNull : Json → Bool
  | .null => true
  | _ => false

/-- The value of a number of either kind. -/
def number? : Json → Option Float
  | .int n => some (Binary64.ofInt n)
  | .float x => some x
  | _ => none

/-- A natural number below `2 ^ bits`; a double is none. -/
def count? (bits : Nat) : Json → Option Nat
  | .int n => if 0 ≤ n ∧ n.toNat < Nat.pow 2 bits then some n.toNat else none
  | _ => none

/-- False for null, false, zero and the empty text, array and object. -/
def isTruthy : Json → Bool
  | .null => false
  | .bool b => b
  | .int n => n != 0
  | .float x => x != 0.0
  | .string s => s != ""
  | .array items => !items.isEmpty
  | .object members => !members.isEmpty

end Json

end FigureData
