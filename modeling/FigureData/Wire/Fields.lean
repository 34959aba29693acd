/-
  Reading records and choices out of JSON documents.

  * A record is an object with named fields, or an array with the values of the
    fields in their declared order.
  * Unknown members of an object are ignored; a known one may occur once.  A type that
    is read from text says in its `wanted` which members it knows.
  * An optional field may be absent from an object or null; one with a default
    may be absent altogether.
-/
import FigureData.Json.Outline

namespace FigureData

/-! ## Records -/

/-- What a document has for a field. -/
inductive Slot where
  | present (value : Json)
  /-- An object without such a member. -/
  | absent
  /-- An array that ends before the field. -/
  | beyond

/-- The slots of a record's fields, in declared order. -/
structure Fields where
  slots : List (String × Slot)

namespace Fields

/-- The members of an object for the declared names; none may be repeated. -/
def ofMembers? (members : List (String × Json)) : List String → Option (List (String × Slot))
  | [] => some []
  | name :: rest =>
    match members.filter fun m => m.1 = name with
    | [] => (ofMembers? members rest).map ((name, .absent) :: ·)
    | [m] => (ofMembers? members rest).map ((name, .present m.2) :: ·)
    | _ => none

/-- The elements of an array for the declared names; there may not be more of them. -/
def ofItems? : List Json → List String → Option (List (String × Slot))
  | [], names => some (names.map fun name => (name, .beyond))
  | _ :: _, [] => none
  | j :: more, name :: rest => (ofItems? more rest).map ((name, .present j) :: ·)

def read? (names : List String) : Json → Option Fields
  | .object members => (ofMembers? members names).map Fields.mk
  | .array items => (ofItems? items names).map Fields.mk
  | _ => none

/-- A record that has to be an object. -/
def readNamed? (names : List String) : Json → Option Fields
  | .object members => read? names (.object members)
  | _ => none

def slot (fields : Fields) (name : String) : Slot := (fields.slots.lookup name).getD .absent

variable {α : Type}

def required (fields : Fields) (name : String) (read : Json → Option α) : Option α :=
  match fields.slot name with
  | .present j => read j
  | _ => none

def optional (fields : Fields) (name : String) (read : Json → Option α) : Option (Option α) :=
  match fields.slot name with
  | .present .null => some none
  | .present j => (read j).map some
  | .absent => some none
  | .beyond => none

def defaulted (fields : Fields) (name : String) (read : Json → Option α) (default : α) :
    Option α :=
  match fields.slot name with
  | .present j => read j
  | _ => some default

/-- An optional field that may also be missing at the end of an array. -/
def optionalOrBeyond (fields : Fields) (name : String) (read : Json → Option α) :
    Option (Option α) :=
  match fields.slot name with
  | .present .null => some none
  | .present j => (read j).map some
  | _ => some none

end Fields

/-! ## Choices -/

namespace Json

/-- A variant of a choice: a text that names it, or an object whose only member
is its name with its content. -/
def variant? : Json → Option (String × Option Json)
  | .string name => some (name, none)
  | .object [(name, content)] => some (name, some content)
  | _ => none

/-- A variant without content. -/
def unitVariant? (j : Json) : Option String :=
  match j.variant? with
  | some (name, none) => some name
  | some (name, some .null) => some name
  | _ => none

/-- A variant without content inside a record that names its own variant: there an
object without members is no content either. -/
def innerUnitVariant? (j : Json) : Option String :=
  match j.variant? with
  | some (name, some (.object [])) => some name
  | _ => j.unitVariant?

/-- A record that names its variant in the field `tag`; yields the variant and
the other fields. -/
def tagged? (tag : String) : Json → Option (String × Json)
  | .object members =>
    match members.filter fun m => m.1 = tag with
    | [(_, .string name)] => some (name, .object (members.filter fun m => m.1 ≠ tag))
    | _ => none
  | .array (.string name :: rest) => some (name, .array rest)
  | _ => none

/-- A variant in the field `tag` beside its content in the field `content`.  As an
array the variant is a text. -/
def adjacent? (tag content : String) : Json → Option (String × Option Json)
  | .object members =>
    match members.filter fun m => m.1 = tag, members.filter fun m => m.1 = content with
    | [(_, name)], [] => (unitVariant? name).map fun v => (v, none)
    | [(_, name)], [(_, j)] => (unitVariant? name).map fun v => (v, some j)
    | _, _ => none
  | .array [.string name, j] => some (name, some j)
  | _ => none

/-! ## Lists and maps -/

/-- An array read element by element. -/
def list? {α : Type} (read : Json → Option α) : Json → Option (List α)
  | .array items => items.mapM read
  | _ => none

/-- An object of texts; of a repeated name the last value. -/
def textMap? : Json → Option (SortedMap String String)
  | .object members =>
    (members.mapM fun m => (text? m.2).map fun t => (m.1, t)).map SortedMap.ofList
  | _ => none

/-- An object of numbers; of a repeated name the last value. -/
def floatMap? : Json → Option (SortedMap String Float)
  | .object members =>
    (members.mapM fun m => (number? m.2).map fun x => (m.1, x)).map SortedMap.ofList
  | _ => none

def bool? : Json → Option Bool
  | .bool b => some b
  | _ => none

/-- A text of one character. -/
def char? (j : Json) : Option Char :=
  match (text? j).map String.toList with
  | some [c] => some c
  | _ => none

/-- An array of two texts. -/
def textPair? : Json → Option (String × String)
  | .array [.string a, .string b] => some (a, b)
  | _ => none

end Json

end FigureData
