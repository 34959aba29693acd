/-
  Extractors: collecting entities from records.

  An extractor is a value.  `ingest` yields the extractor with a record added
  or a fault, so a refused record leaves no trace; `finish` yields the entities
  in discovery order and an extractor that has seen nothing.  Entities are
  numbered as they are found; those of levels, which are found in any order,
  when they are listed.
-/
import FigureData.Extraction.Classification
import FigureData.Extraction.Complexity
import FigureData.Extraction.ErrorRates
import FigureData.Extraction.PacketLoss
import FigureData.Extraction.Strategies

namespace FigureData

open Extraction

/-- A kind of extraction together with what it has collected. -/
inductive Extractor where
  | strategies (rules : StrategyRules) (entities : OrderedMap Entity)
  | errorRates (orderings : List String) (entities : List Entity)
  | complexity (levels : Levels)
  | classification (entities : List Entity)
  | packetLoss (entities : List Entity)

namespace Extractor

/-- The extractor of a descriptor, which has seen nothing. -/
def ofDescriptor (d : Descriptor) : Extractor :=
  match d.evaluation with
  | .errorRate => .errorRates d.headers []
  | .complexity => .complexity ∅
  | .classification => .classification []
  | .packetLoss => .packetLoss []
  | _ => .strategies (.ofDescriptor d) ∅

/-- The same kind of extraction, with nothing collected. -/
def fresh : Extractor → Extractor
  | .strategies rules _ => .strategies rules ∅
  | .errorRates orderings _ => .errorRates orderings []
  | .complexity _ => .complexity ∅
  | .classification _ => .classification []
  | .packetLoss _ => .packetLoss []

/-- Adds a record, all of it or nothing. -/
def ingest (x : Extractor) (r : Record) : Except Fault Extractor :=
  match x with
  | .strategies rules entities =>
    (rules.read r).map fun contribution =>
      match contribution with
      | some c => .strategies rules (c.enter entities)
      | none => .strategies rules entities
  | .errorRates orderings entities =>
    (readNetworks orderings r).map fun more => .errorRates orderings (Entity.extend entities more)
  | .complexity levels =>
    (readRepetition r).map fun repetition => .complexity (repetition.enter levels)
  | .classification entities =>
    (readOutcomes r).map fun more => .classification (Entity.extend entities more)
  | .packetLoss entities =>
    (readReplay r).map fun e => .packetLoss (Entity.extend entities [e])

/-- What has been collected, in order of discovery. -/
def entities : Extractor → List Entity
  | .strategies _ entities => entities.values
  | .errorRates _ entities => entities
  | .complexity levels => levelEntities levels
  | .classification entities => entities
  | .packetLoss entities => entities

/-- The entities collected, unless one of them is incomplete. -/
def collected (x : Extractor) : Except Fault (List Entity) :=
  match x with
  | .strategies rules _ => rules.complete x.entities
  | _ => .ok x.entities

/-- Hands over what was collected and starts anew, whether or not it is complete. -/
def finish (x : Extractor) : Extractor × Except Fault (List Entity) := (x.fresh, x.collected)

@[simp] theorem fresh_finish (x : Extractor) : x.finish.1 = x.fresh := rfl

end Extractor

end FigureData
