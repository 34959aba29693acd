/-
  Counting weighted successes and failures.

  Counters are unsigned 64 bit numbers: a sum that does not fit wraps around.
-/
import FigureData.Number.Binary64

namespace FigureData

/-- One observation, which stands for `weight` equal ones. -/
inductive Outcome where
  | success (weight : Nat)
  | failure (weight : Nat)
  deriving DecidableEq, Repr

/-- Total weights. -/
structure Tally where
  success : UInt64
  failure : UInt64
  deriving DecidableEq, Repr

namespace Tally

def zero : Tally := ⟨0, 0⟩

def add (t : Tally) : Outcome → Tally
  | .success weight => { t with success := t.success + .ofNat weight }
  | .failure weight => { t with failure := t.failure + .ofNat weight }

def ofOutcomes (outcomes : List Outcome) : Tally := outcomes.foldl add zero

def total (t : Tally) : UInt64 := t.success + t.failure

/-- Share of the successes; nothing observed has none. -/
def successRate? (t : Tally) : Option Float :=
  if t.total = 0 then none else some (Binary64.ofNat t.success.toNat / Binary64.ofNat t.total.toNat)

/-- Complement of the success rate. -/
def errorRate? (t : Tally) : Option Float := t.successRate?.map fun rate => 1.0 - rate

theorem add_success (t : Tally) (w : Nat) : (t.add (.success w)).total = t.total + .ofNat w := by
  unfold add total
  rw [UInt64.add_assoc, UInt64.add_comm (.ofNat w), ← UInt64.add_assoc]

theorem add_failure (t : Tally) (w : Nat) : (t.add (.failure w)).total = t.total + .ofNat w :=
  (UInt64.add_assoc _ _ _).symm

end Tally

end FigureData
