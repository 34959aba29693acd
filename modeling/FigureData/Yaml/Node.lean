/-
  YAML documents.

  A document is a tree of scalars, lists and records; the names in a record
  are nodes themselves.  Nodes may have numbers, by which aliases refer to them.
  A number may be given more than once: the last node in the document that has
  it is meant, wherever the alias stands.
-/
import FigureData.Yaml.Tag

namespace FigureData

/-- How a scalar is written. -/
inductive ScalarForm where
  | plain
  | quoted
  /-- Lines that are kept as they stand. -/
  | literal
  /-- Lines that are joined. -/
  | folded
  deriving DecidableEq, Repr

/-- A YAML document, or a node of one. -/
inductive Yaml where
  | scalar (number : Option Nat) (tag : Option Yaml.Tag) (form : ScalarForm) (text : String)
  | list (number : Option Nat) (items : List Yaml)
  | record (number : Option Nat) (members : List (Yaml × Yaml))
  | alias (number : Nat)

namespace Yaml

/-- What stands where nothing is written. -/
def nothing : Yaml := .scalar none none .plain ""

instance : Inhabited Yaml := ⟨nothing⟩

/-! ## Aliases -/

/-- A node with its number, if it has one. -/
def entry (number : Option Nat) (y : Yaml) : List (Nat × Yaml) :=
  match number with
  | some n => [(n, y)]
  | none => []

mutual

/-- The numbered nodes of a document, in order. -/
def numbered : Yaml → List (Nat × Yaml)
  | .scalar number tag form text => entry number (.scalar number tag form text)
  | .list number items => entry number (.list number items) ++ numberedItems items
  | .record number members => entry number (.record number members) ++ numberedMembers members
  | .alias _ => []

def numberedItems : List Yaml → List (Nat × Yaml)
  | [] => []
  | y :: rest => numbered y ++ numberedItems rest

def numberedMembers : List (Yaml × Yaml) → List (Nat × Yaml)
  | [] => []
  | (name, value) :: rest => numbered name ++ numbered value ++ numberedMembers rest

end

/-- The last node of a document that has a number. -/
def referent? (document : Yaml) (number : Nat) : Option Yaml :=
  document.numbered.reverse.lookup number

/-- The node that is meant by a node of a document. -/
def resolve (document y : Yaml) : Yaml :=
  match y with
  | .alias number => (document.referent? number).getD y
  | _ => y

end Yaml

end FigureData
