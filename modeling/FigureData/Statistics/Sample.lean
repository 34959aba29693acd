/-
  Samples: repeated measurements of one strategy on one network.

  A measurement that found no solution is kept as a missing marker, a value
  that is not a number.
-/
import FigureData.Number.Binary64

namespace FigureData

/-- Measurements in the order they were taken. -/
structure Sample where
  values : List Float
  deriving DecidableEq

namespace Sample

instance : Inhabited Sample := ⟨⟨[]⟩⟩

/-- A sample from measurements that may be absent. -/
def ofMeasurements (measurements : List (Option Float)) : Sample :=
  ⟨measurements.map fun m => m.getD Binary64.missing⟩

def length (s : Sample) : Nat := s.values.length

def isEmpty (s : Sample) : Bool := s.values.isEmpty

/-- Is some measurement a missing marker? -/
def hasMissing (s : Sample) : Bool := s.values.any fun x => x.isNaN

/-- A sample that can be summarised: it has measurements and none is missing. -/
def isComplete (s : Sample) : Bool := !s.isEmpty && !s.hasMissing

theorem isComplete_iff {s : Sample} :
    s.isComplete = true ↔ s.values ≠ [] ∧ ∀ v ∈ s.values, v.isNaN = false := by
  simp [isComplete, isEmpty, hasMissing]

/-- What holds of every measurement that is no missing marker holds of all in a complete
sample. -/
theorem forall_of_isComplete {P : Float → Prop} {s : Sample} (h : s.isComplete = true)
    (hall : ∀ v ∈ s.values, v = Binary64.missing ∨ P v) : ∀ v ∈ s.values, P v := by
  intro v hv
  rcases hall v hv with rfl | hP
  · have hnumber := (isComplete_iff.1 h).2 _ hv
    cases hnumber
  · exact hP

/-- Arithmetic mean; an empty sample has none. -/
def mean? (s : Sample) : Option Float :=
  if s.isEmpty then none else some (Binary64.sum s.values / Binary64.ofNat s.length)

theorem mean?_eq_none_iff (s : Sample) : s.mean? = none ↔ s.values = [] := by
  simp [mean?, isEmpty, List.isEmpty_iff]

end Sample

end FigureData
