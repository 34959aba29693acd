/-
  Reading records and values out of YAML documents.

  Numbers are unquoted; a literal block counts as one where its tag says so.
  Any scalar is a text.  Unknown members of a record are ignored; a known one
  may occur once.  Every reader takes the document, in which aliases are looked
  up, and a node of it.
-/
import FigureData.Yaml.Node
import FigureData.Yaml.Plain

namespace FigureData.Yaml

/-! ## Values -/

/-- The text of a scalar that may be a value of a standard type. -/
def valueText? (type : String) (document y : Yaml) : Option String :=
  match document.resolve y with
  | .scalar _ _ .plain text => some text
  | .scalar _ (some tag) .literal text => if tag = Tag.standard type then some text else none
  | _ => none

def asFloat? (document y : Yaml) : Option Float := (valueText? "float" document y).bind float?

def asCount? (bits : Nat) (document y : Yaml) : Option Nat :=
  (valueText? "int" document y).bind (count? bits)

def asText? (document y : Yaml) : Option String :=
  match document.resolve y with
  | .scalar _ _ _ text => some text
  | _ => none

/-- A text of one character. -/
def asChar? (document y : Yaml) : Option Char :=
  match (asText? document y).map String.toList with
  | some [c] => some c
  | _ => none

/-- A value that may be null: nothing, or a name of null. -/
def asOptional? {α : Type} (read : Yaml → Yaml → Option α) (document y : Yaml) :
    Option (Option α) :=
  match document.resolve y with
  | .scalar _ none .plain text =>
    if text.isEmpty || isNullName text then some none else (read document y).map some
  | .scalar _ (some tag) .plain text =>
    if tag = Tag.standard "null" then if isNullName text then some none else none
    else (read document y).map some
  | _ => (read document y).map some

/-! ## Records -/

/-- The members of a record whose names are scalars; nothing is an empty record. -/
def asRecord? (document y : Yaml) : Option (List (String × Yaml)) :=
  match document.resolve y with
  | .record _ members => members.mapM fun m => (asText? document m.1).map fun name => (name, m.2)
  | .scalar _ _ .plain "" => some []
  | _ => none

/-- A member of a record, or the default without one. -/
def member? {α : Type} (document : Yaml) (members : List (String × Yaml)) (name : String)
    (read : Yaml → Yaml → Option α) (default : α) : Option α :=
  match members.filter fun m => m.1 = name with
  | [] => some default
  | [m] => read document m.2
  | _ => none

end FigureData.Yaml
