/-
  Well-formed JSON text and the parts of it that are wanted.

  An outline is a text whose form has been checked and whose leaves may lack a
  value.  Reading it with a selection gives the document of the wanted parts;
  for those every leaf needs a value and no more than `maxDepth` arrays and
  objects may be open at once.  Of all other parts nothing more is asked.
-/
import FigureData.Json.Document

namespace FigureData.Json

/-- Most arrays and objects that may be open at once. -/
def maxDepth : Nat := 127

inductive Outline where
  /-- A literal name, a number or a string. -/
  | leaf (value : Option Json)
  | array (items : List Outline)
  /-- Members as they stand in the text. -/
  | object (members : List (Option String × Outline))

/-! ## Selections -/

/-- Which parts of a text are wanted. -/
inductive Selection where
  | all
  /-- Of an object the members with these names, of an array the items in this order. -/
  | fields (wanted : List (String × Selection))
  /-- A record that names its variant in the field `tag` beside the field `content`.  The
  content is wanted as a whole when it stands before the tag. -/
  | tagged (tag content : String) (wanted : Selection)

namespace Selection

/-- Fields that are wanted as a whole. -/
def named (names : List String) : Selection := .fields (names.map fun name => (name, .all))

/-- The selection for an object with these member names. -/
def ofNames (names : List (Option String)) : Selection → Selection
  | .tagged tag content wanted =>
    match names.find? fun name => name = some tag || name = some content with
    | some name => .fields [(tag, .all), (content, if name = some tag then wanted else .all)]
    | none => .fields []
  | s => s

/-- What is wanted of a member, if anything. -/
def member? (name : String) : Selection → Option Selection
  | .fields wanted => wanted.lookup name
  | _ => some .all

/-- What is wanted of the items of an array; all of those beyond. -/
def items : Selection → List Selection
  | .all => []
  | .fields wanted => wanted.map Prod.snd
  | .tagged _ _ wanted => [.all, wanted]

end Selection

/-! ## Reading the wanted parts -/

namespace Outline

mutual

/-- The document of the wanted parts, with at most `room` arrays and objects
inside each other. -/
def select? (room : Nat) (s : Selection) : Outline → Option Json
  | .leaf value => value
  | .array items =>
    match room with
    | 0 => none
    | room + 1 => (selectItems? room s.items items).map .array
  | .object members =>
    match room with
    | 0 => none
    | room + 1 => (selectMembers? room (s.ofNames (members.map Prod.fst)) members).map .object

def selectItems? (room : Nat) (wanted : List Selection) : List Outline → Option (List Json)
  | [] => some []
  | item :: rest => do
    let j ← select? room (wanted.headD .all) item
    let more ← selectItems? room wanted.tail rest
    return j :: more

/-- Every member needs a name that is a text. -/
def selectMembers? (room : Nat) (s : Selection) :
    List (Option String × Outline) → Option (List (String × Json))
  | [] => some []
  | (none, _) :: _ => none
  | (some name, value) :: rest =>
    match s.member? name with
    | none => selectMembers? room s rest
    | some wanted => do
      let j ← select? room wanted value
      let more ← selectMembers? room s rest
      return (name, j) :: more

end

end Outline

end FigureData.Json
