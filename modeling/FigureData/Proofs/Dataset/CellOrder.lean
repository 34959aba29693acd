/-
  The order of cells.

  `Cell.le` is a test with a direction; what it decides is `Cell.Precedes`, where numbers come
  in the total order of doubles, texts in byte order and numbers before texts, reversed for a
  descending sort, while a missing cell comes after every other in both directions.

  Proved:
  * `Cell.le_iff`: a cell may stand before another exactly when the two are equal or it
    precedes the other.
  * `Cell.le_total`, `Cell.le_trans`: the test is a total preorder.
-/
import FigureData.Dataset.Cell
import FigureData.Proofs.Binary64.Bits
import FigureData.Proofs.Text.Utf8

namespace FigureData

open Binary64 (totalKey totalLe)

namespace Cell

/-! ## Precedence -/

/-- The ascending order of cells that are not missing. -/
inductive Below : Cell → Cell → Prop where
  | numbers {x y : Float} (h : totalKey x < totalKey y) : Below (.number x) (.number y)
  | numberText (x : Float) (s : String) : Below (.number x) (.text s)
  | texts {s t : String} (h : Bytes.ofText s < Bytes.ofText t) : Below (.text s) (.text t)

/-- The order of cells in a direction; the direction does not move missing cells. -/
def Precedes (ascending : Bool) (a b : Cell) : Prop :=
  a ≠ .missing ∧ (b = .missing ∨ if ascending then Below a b else Below b a)

theorem below_numbers_iff {x y : Float} :
    Below (.number x) (.number y) ↔ totalKey x < totalKey y := by
  constructor
  · intro h
    cases h with
    | numbers h => exact h
  · exact .numbers

theorem below_texts_iff {s t : String} :
    Below (.text s) (.text t) ↔ Bytes.ofText s < Bytes.ofText t := by
  constructor
  · intro h
    cases h with
    | texts h => exact h
  · exact .texts

theorem not_below_text_number {s : String} {y : Float} : ¬ Below (.text s) (.number y) := by
  intro h
  cases h

theorem ascendingLe_iff {a b : Cell} (ha : a ≠ .missing) (hb : b ≠ .missing) :
    ascendingLe a b = true ↔ a = b ∨ Below a b := by
  cases a with
  | missing => exact absurd rfl ha
  | number x =>
    cases b with
    | missing => exact absurd rfl hb
    | number y =>
      simp only [ascendingLe, totalLe, decide_eq_true_eq, number.injEq]
      rw [← Binary64.totalKey_inj, Int.le_iff_eq_or_lt, below_numbers_iff]
    | text t => simp [ascendingLe, Below.numberText]
  | text s =>
    cases b with
    | missing => exact absurd rfl hb
    | number y =>
      simp only [ascendingLe, Bool.false_eq_true, reduceCtorEq, not_below_text_number, or_self]
    | text t =>
      simp only [ascendingLe, decide_eq_true_eq, text.injEq]
      rw [le_iff_eq_or_lt, ← Bytes.ofText_lt_iff, below_texts_iff]

theorem isMissing_iff {a : Cell} : a.isMissing = true ↔ a = .missing := by
  cases a <;> simp [isMissing]

/-- A cell may stand before another exactly when the two are equal or it precedes the other. -/
theorem le_iff {ascending : Bool} {a b : Cell} :
    le ascending a b = true ↔ a = b ∨ Precedes ascending a b := by
  unfold le Precedes
  simp only [isMissing_iff]
  by_cases hb : b = .missing
  · by_cases ha : a = .missing <;> simp [hb, ha]
  by_cases ha : a = .missing
  · simp [ha, hb, Ne.symm hb]
  rw [if_neg hb, if_neg ha]
  cases ascending with
  | true => simp [ascendingLe_iff ha hb, ha, hb]
  | false => simp [ascendingLe_iff hb ha, ha, hb, eq_comm]

/-! ## Laws of the test -/

theorem ascendingLe_total (a b : Cell) : (ascendingLe a b || ascendingLe b a) = true := by
  cases a <;> cases b <;> simp only [ascendingLe, Bool.or_true, Bool.true_or]
  case text.text s t => simpa using le_total s t
  case number.number x y => exact Binary64.totalLe_total x y

theorem ascendingLe_trans {a b c : Cell} (hb : b ≠ .missing)
    (hab : ascendingLe a b = true) (hbc : ascendingLe b c = true) : ascendingLe a c = true := by
  cases a <;> cases b <;> cases c <;>
    simp only [ascendingLe, Bool.false_eq_true, decide_eq_true_eq, ne_eq, not_true_eq_false]
      at hab hbc hb ⊢
  case text.text.text r s t => exact le_trans hab hbc
  case number.number.number x y z => exact Binary64.totalLe_trans x y z hab hbc

theorem le_total (ascending : Bool) (a b : Cell) : (le ascending a b || le ascending b a) = true := by
  unfold le
  by_cases ha : a.isMissing = true
  · simp [ha]
  by_cases hb : b.isMissing = true
  · simp [hb]
  have hab := ascendingLe_total a b
  simp only [Bool.not_eq_true] at ha hb
  cases ascending with
  | true => simpa [ha, hb] using hab
  | false => simpa [ha, hb, or_comm] using hab

theorem le_trans (ascending : Bool) (a b c : Cell) (hab : le ascending a b = true)
    (hbc : le ascending b c = true) : le ascending a c = true := by
  unfold le at *
  by_cases hc : c.isMissing = true
  · simp [hc]
  rw [if_neg hc] at hbc ⊢
  by_cases hb : b.isMissing = true
  · simp [hb] at hbc
  rw [if_neg hb] at hab hbc
  by_cases ha : a.isMissing = true
  · simp [ha] at hab
  rw [if_neg ha] at hab ⊢
  have hne : b ≠ .missing := fun h => hb (isMissing_iff.2 h)
  cases ascending with
  | true => exact ascendingLe_trans hne hab hbc
  | false => exact ascendingLe_trans hne hbc hab

end Cell

end FigureData
