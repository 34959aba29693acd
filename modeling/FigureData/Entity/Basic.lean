/-
  Entities: the networks, topologies or configurations that an evaluation
  measures, before and after their samples are summarised.
-/
import FigureData.OrderedMap
import FigureData.SortedMap
import FigureData.Statistics.Comparison

namespace FigureData

/-- An entity with everything measured on it. -/
structure Entity where
  id : String
  /-- Position in the order of discovery. -/
  discovery : Nat := 0
  /-- Ideal value, when one is known. -/
  ideal : Option Float := none
  /-- Samples by the label of the strategy. -/
  samples : OrderedMap Sample := ∅
  /-- Scalars by name. -/
  scalars : SortedMap String Float := ∅
  deriving DecidableEq

/-- An entity whose samples are summarised. -/
structure EntitySummary where
  id : String
  discovery : Nat
  ideal : Option Float
  /-- Summaries by the label of the strategy. -/
  summaries : OrderedMap Summary
  /-- Means by the label of the strategy. -/
  means : OrderedMap Float
  scalars : SortedMap String Float
  /-- Comparisons by name. -/
  comparisons : SortedMap String Comparison
  deriving DecidableEq

/-- What becomes of an entity. -/
inductive EntityOutcome where
  | kept (summary : EntitySummary)
  /-- Left out, with the reason. -/
  | dropped (id : String) (reason : Fault)

namespace Entity

/-- Numbers entities in the order they are listed, the first of them with `start`. -/
def number (start : Nat) (entities : List Entity) : List Entity :=
  (entities.zipIdx start).map fun (e, i) => { e with discovery := i }

/-- Lists further entities, which are numbered on from those there are. -/
def extend (entities more : List Entity) : List Entity :=
  entities ++ number entities.length more

@[simp] theorem length_number (start : Nat) (entities : List Entity) :
    (number start entities).length = entities.length := by simp [number]

theorem map_discovery_number (start : Nat) (entities : List Entity) :
    (number start entities).map discovery = List.range' start entities.length := by
  unfold number
  rw [List.map_map, ← List.zipIdx_map_snd]
  rfl

end Entity

end FigureData
