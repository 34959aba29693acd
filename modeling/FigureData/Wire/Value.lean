/-
  Values on their way into a text format.

  A `Wire` value names the variant of a choice explicitly, so that each format
  can write variants its own way: JSON as an object with one member, YAML as a
  tag.
-/
import FigureData.Json.Document

namespace FigureData

inductive Wire where
  | null
  | bool (value : Bool)
  | int (value : Int)
  | float (value : Float)
  | text (value : String)
  | list (items : List Wire)
  | record (fields : List (String × Wire))
  /-- A variant of a choice together with its content. -/
  | variant (name : String) (content : Wire)

namespace Wire

instance : Inhabited Wire := ⟨null⟩

def count (n : Nat) : Wire := .int n

def texts (items : List String) : Wire := .list (items.map .text)

/-- A field that is left out when there is nothing to write. -/
def optionalField {α : Type} (name : String) (encode : α → Wire) (value : Option α) :
    List (String × Wire) :=
  match value with
  | some x => [(name, encode x)]
  | none => []

/-- A map of texts. -/
def textMap (m : SortedMap String String) : Wire :=
  .record (m.entries.map fun e => (e.1, .text e.2))

/-- A map of doubles. -/
def floatMap (m : SortedMap String Float) : Wire :=
  .record (m.entries.map fun e => (e.1, .float e.2))

mutual

def toJson : Wire → Json
  | .null => .null
  | .bool b => .bool b
  | .int n => .int n
  | .float x => .float x
  | .text s => .string s
  | .list items => .array (itemsToJson items)
  | .record fields => .object (fieldsToJson fields)
  | .variant name content => .object [(name, toJson content)]

def itemsToJson : List Wire → List Json
  | [] => []
  | w :: rest => toJson w :: itemsToJson rest

def fieldsToJson : List (String × Wire) → List (String × Json)
  | [] => []
  | (name, w) :: rest => (name, toJson w) :: fieldsToJson rest

end

end Wire

end FigureData
