/-
  Faults as wire values: the family beside a record of the details.
-/
import FigureData.Fault
import FigureData.Wire.Fields
import FigureData.Wire.Value

namespace FigureData.Fault

/-- The fields read from text. -/
def wanted : Json.Selection :=
  .tagged "family" "detail" (.named ["code", "message", "context", "hint"])

/-- Everything about a fault but its family. -/
def encodeDetail (f : Fault) : Wire :=
  .record ([
      ("code", .text f.code),
      ("message", .text f.message),
      ("context", .textMap f.context)] ++
    Wire.optionalField "hint" .text f.hint)

def encode (f : Fault) : Wire :=
  .record [("family", .text f.family.name), ("detail", f.encodeDetail)]

def decodeDetail? (family : Family) (j : Json) : Option Fault := do
  let fields ← Fields.read? ["code", "message", "context", "hint"] j
  return {
    family
    code := ← fields.required "code" Json.text?
    message := ← fields.required "message" Json.text?
    context := ← fields.defaulted "context" Json.textMap? ∅
    hint := ← fields.optional "hint" Json.text? }

def decode? (j : Json) : Option Fault :=
  match j.adjacent? "family" "detail" with
  | some (name, some detail) => (Family.ofName? name).bind fun family => decodeDetail? family detail
  | _ => none

end FigureData.Fault
