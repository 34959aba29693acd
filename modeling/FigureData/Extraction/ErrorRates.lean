/-
  Extraction of error rates: a document lists networks, each with the success
  rate of every ordering.
-/
import FigureData.Entity.Basic
import FigureData.Extraction.Reading

namespace FigureData.Extraction

/-- Pointer to the success rate of an ordering. -/
def successRatePointer (ordering : String) : String := "/" ++ ordering ++ "/result/success_rate"

/-- Error rates of one network, by ordering. -/
def readErrorRates (orderings : List String) (network : Json) (index : Nat) (file : String) :
    Except Fault (SortedMap String Float) := do
  let pairs ← orderings.mapM fun ordering =>
    match requireNumber network (successRatePointer ordering) file with
    | .ok rate => .ok (ordering, 1.0 - rate)
    | .error fault => .error (fault.withContext "network" (toString index))
  return .ofList pairs

/-- The networks of a record, identified by the stem and their position. -/
def readNetworks (orderings : List String) (r : Record) : Except Fault (List Entity) := do
  match (← r.document).items? with
  | none => .error (.inFile "not_an_array" "expected an array of networks" r.fileName)
  | some networks =>
    networks.zipIdx.mapM fun (network, index) => do
      let scalars ← readErrorRates orderings network index r.fileName
      return { id := r.stem ++ "#" ++ toString index, scalars }

end FigureData.Extraction
