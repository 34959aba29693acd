/-
  The tokens of a YAML text.

  Indentation has tokens of its own, as brackets have.  A name is announced by a
  token that stands before it, though only its colon tells it from other nodes.
  Anchors are numbered: an anchor gets the count of the names known before it,
  an alias the number that its name has got last.
-/
import FigureData.Yaml.Node

namespace FigureData.Yaml

inductive Token where
  | directive (d : Directive)
  | documentBegin
  | documentEnd
  /-- A list begins at a greater column. -/
  | indentList
  /-- A record begins at a greater column. -/
  | indentRecord
  /-- What began at a greater column ends. -/
  | dedent
  | openBracket
  | closeBracket
  | openBrace
  | closeBrace
  /-- An item of a list follows. -/
  | hyphen
  | comma
  /-- A name follows. -/
  | name
  /-- The value of a name follows. -/
  | colon
  | alias (number : Nat)
  | anchor (number : Nat)
  | tag (form : TagForm)
  | scalar (form : ScalarForm) (text : String)

end FigureData.Yaml
