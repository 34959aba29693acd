/-
  JSON pointers (RFC 6901): a path of names and positions into a document.

  The empty pointer is the whole document; any other starts with a slash.  In
  a name, `~1` stands for a slash and `~0` for a tilde.
-/
import FigureData.Json.Document
import FigureData.Number.Decimal
import FigureData.Text.Split

namespace FigureData.Json

/-- Undoes the escapes of one step of a pointer. -/
def unescapeStep : List Char → List Char
  | '~' :: '1' :: rest => '/' :: unescapeStep rest
  | '~' :: '0' :: rest => '~' :: unescapeStep rest
  | c :: rest => c :: unescapeStep rest
  | [] => []

/-- The steps of a pointer, or `none` for a text that is none. -/
def pointerSteps? (pointer : String) : Option (List String) :=
  match pointer.toList with
  | [] => some []
  | '/' :: rest =>
    some ((Text.splitAt '/' rest).map fun step => String.ofList (unescapeStep step))
  | _ => none

/-- The position that a step names in an array: digits without a leading zero
or a sign. -/
def arrayIndex? (step : String) : Option Nat :=
  match step.toList with
  | [] => none
  | ['0'] => some 0
  | '0' :: _ => none
  | digits => if digits.all Char.isDigit then some (Digits.toNat digits) else none

/-- One step into an object or an array. -/
def child? (j : Json) (step : String) : Option Json :=
  match j with
  | .object members => members.lookup step
  | .array items => (arrayIndex? step).bind fun i => items[i]?
  | _ => none

/-- Follows steps one after the other. -/
def descend? (j : Json) : List String → Option Json
  | [] => some j
  | step :: rest => (j.child? step).bind fun next => descend? next rest

/-- The part of a document that a pointer names. -/
def at? (j : Json) (pointer : String) : Option Json :=
  (pointerSteps? pointer).bind j.descend?

end FigureData.Json
