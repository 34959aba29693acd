/-
  Reading JSON text.

  Tokens are fed to a machine that keeps the open arrays and objects on a
  stack and knows what may come next.  The result is an outline of the text;
  the document is read from it (`Outline.select?`).
-/
import FigureData.Json.Outline
import FigureData.Json.Token

namespace FigureData.Json

/-- An open array or object, its finished parts in reverse. -/
inductive Frame where
  | array (done : List Outline)
  /-- `name` is the name whose value is being read. -/
  | object (done : List (Option String × Outline)) (name : Option String)

/-- What may come next. -/
inductive Expectation where
  | value
  | valueOrClose
  | name
  | nameOrClose
  | colon
  | commaOrClose
  | nothing

structure ReadState where
  stack : List Frame
  next : Expectation
  /-- The finished text. -/
  outline : Option Outline

def ReadState.start : ReadState := ⟨[], .value, none⟩

/-- Hands a finished value to the innermost open array or object. -/
def deliver (value : Outline) : List Frame → ReadState
  | [] => ⟨[], .nothing, some value⟩
  | .array done :: outer => ⟨.array (value :: done) :: outer, .commaOrClose, none⟩
  | .object done name :: outer =>
    ⟨.object ((name, value) :: done) name :: outer, .commaOrClose, none⟩

/-- The first token of a value. -/
def beginValue (stack : List Frame) : Token → Option ReadState
  | .openArray => some ⟨.array [] :: stack, .valueOrClose, none⟩
  | .openObject => some ⟨.object [] none :: stack, .nameOrClose, none⟩
  | .string value => some (deliver (.leaf (value.map .string)) stack)
  | .word value => some (deliver (.leaf value) stack)
  | _ => none

/-- Closes the innermost array or object. -/
def closeFrame : List Frame → Token → Option ReadState
  | .array done :: outer, .closeArray => some (deliver (.array done.reverse) outer)
  | .object done _ :: outer, .closeObject => some (deliver (.object done.reverse) outer)
  | _, _ => none

/-- The name of a member. -/
def beginMember : List Frame → Token → Option ReadState
  | .object done _ :: outer, .string name => some ⟨.object done name :: outer, .colon, none⟩
  | _, _ => none

/-- A comma between two elements or two members. -/
def continueFrame : List Frame → Option ReadState
  | .array done :: outer => some ⟨.array done :: outer, .value, none⟩
  | .object done name :: outer => some ⟨.object done name :: outer, .name, none⟩
  | [] => none

def readToken (s : ReadState) (t : Token) : Option ReadState :=
  match s.next, t with
  | .value, _ => beginValue s.stack t
  | .valueOrClose, .closeArray => closeFrame s.stack t
  | .valueOrClose, _ => beginValue s.stack t
  | .name, _ => beginMember s.stack t
  | .nameOrClose, .closeObject => closeFrame s.stack t
  | .nameOrClose, _ => beginMember s.stack t
  | .colon, .colon => some ⟨s.stack, .value, none⟩
  | .commaOrClose, .comma => continueFrame s.stack
  | .commaOrClose, _ => closeFrame s.stack t
  | _, _ => none

def readTokens (s : ReadState) : List Token → Option ReadState
  | [] => some s
  | t :: rest => (readToken s t).bind fun next => readTokens next rest

/-- The outline of a text. -/
def outline? (text : String) : Option Outline := do
  let tokens ← tokens? text.toList
  let final ← readTokens .start tokens
  final.outline

/-- Reads the wanted parts of a text, members as they stand there. -/
def readSelected? (s : Selection) (text : String) : Option Json :=
  (outline? text).bind (Outline.select? maxDepth s)

/-- Reads a text as one JSON document. -/
def read? (text : String) : Option Json := readSelected? .all text

/-- Reads a text as free-form data: members sorted, of a repeated name the last value. -/
def readSorted? (text : String) : Option Json := (read? text).map sorted

end FigureData.Json
