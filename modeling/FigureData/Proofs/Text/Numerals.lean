/-
  Numerals in a text: which characters they consist of.

  A numeral that can be read has digits, signs, a point and the letter of an exponent in it, and
  nothing else.  So it is one word, and brackets around it can be told from it.

  Proved:
  * `Decimal.isNumeralChar_of_read?`: the characters of a numeral that can be read.
  * `Decimal.isBlank_of_isNumeralChar`: none of them is blank.
  * `Decimal.readCount?_ofNat`: a count is read back from its digits.
-/
import FigureData.Proofs.Json.Words
import FigureData.Text.Blank
import Mathlib.Algebra.Ring.Nat
import Mathlib.Data.List.TakeWhile

namespace FigureData

theorem Text.isBlank_of_isDigit {c : Char} (h : c.isDigit = true) : isBlank c = false := by
  unfold isBlank
  have hbounds : 48 ≤ c.toNat ∧ c.toNat ≤ 57 := by
    rw [Char.isDigit, Bool.and_eq_true, decide_eq_true_eq, decide_eq_true_eq] at h
    exact ⟨UInt32.le_iff_toNat_le.1 h.1, UInt32.le_iff_toNat_le.1 h.2⟩
  simp only [Bool.or_eq_false_iff, Bool.and_eq_false_iff, decide_eq_false_iff_not, beq_eq_false_iff_ne]
  omega

namespace Decimal

/-- Characters that numerals consist of. -/
def isNumeralChar (c : Char) : Bool := c.isDigit || decide (c ∈ ['+', '-', '.', 'e', 'E'])

theorem isNumeralChar_of_isDigit {c : Char} (h : c.isDigit = true) : isNumeralChar c = true := by
  unfold isNumeralChar
  rw [h]
  rfl

theorem isBlank_of_isNumeralChar {c : Char} (h : isNumeralChar c = true) :
    Text.isBlank c = false := by
  rcases Bool.or_eq_true_iff.1 h with h | h
  · exact Text.isBlank_of_isDigit h
  · simp only [decide_eq_true_eq, List.mem_cons, List.not_mem_nil, or_false] at h
    rcases h with rfl | rfl | rfl | rfl | rfl <;> rfl

theorem forall_of_takeSign {cs : List Char} (h : ∀ c ∈ (takeSign cs).2, isNumeralChar c = true) :
    ∀ c ∈ cs, isNumeralChar c = true := by
  unfold takeSign at h
  split at h
  · exact List.forall_mem_cons.2 ⟨rfl, h⟩
  · exact List.forall_mem_cons.2 ⟨rfl, h⟩
  · exact h

theorem forall_of_take {cs : List Char}
    (h : ∀ c ∈ (Digits.take cs).2, isNumeralChar c = true) : ∀ c ∈ cs, isNumeralChar c = true := by
  unfold Digits.take at h
  rw [List.span_eq_takeWhile_dropWhile] at h
  rw [← List.takeWhile_append_dropWhile (p := Char.isDigit) (l := cs), List.forall_mem_append]
  exact ⟨fun c hc => isNumeralChar_of_isDigit (List.mem_takeWhile_imp hc), h⟩

theorem forall_of_readExponent? {rest : List Char} {power : Int}
    (h : readExponent? rest = some power) : ∀ c ∈ rest, isNumeralChar c = true := by
  cases rest with
  | nil => exact fun _ hc => absurd hc List.not_mem_nil
  | cons c rest =>
    simp only [readExponent?] at h
    split at h
    next hletter =>
      split at h
      · cases h
      next hdigits =>
        rw [Bool.or_eq_true, Bool.not_eq_true', not_or, Bool.not_eq_false, List.all_eq_true]
          at hdigits
        refine List.forall_mem_cons.2 ⟨?_, forall_of_takeSign fun c hc =>
          isNumeralChar_of_isDigit (hdigits.2 c hc)⟩
        rcases hletter with rfl | rfl <;> rfl
    next => cases h

/-- A numeral consists of digits, signs, a point and the letter of an exponent. -/
theorem isNumeralChar_of_read? {cs : List Char} {d : Decimal} (h : read? cs = some d) :
    ∀ c ∈ cs, isNumeralChar c = true := by
  refine forall_of_takeSign (forall_of_take ?_)
  simp only [read?, readUnsigned?] at h
  split at h
  next more hmore =>
    split_ifs at h
    obtain ⟨power, hpower, -⟩ := Option.map_eq_some_iff.1 h
    rw [hmore]
    exact List.forall_mem_cons.2 ⟨rfl, forall_of_take (forall_of_readExponent? hpower)⟩
  next =>
    split_ifs at h
    obtain ⟨power, hpower, -⟩ := Option.map_eq_some_iff.1 h
    exact forall_of_readExponent? hpower

/-- A count is read back from its digits. -/
theorem readCount?_ofNat {bits n : ℕ} (h : n < 2 ^ bits) :
    readCount? bits (Digits.ofNat n) = some n := by
  have hplus : ∀ rest, Digits.ofNat n ≠ '+' :: rest := by
    intro rest hdigits
    have hdigit := Digits.isDigit_ofNat (hdigits ▸ List.mem_cons_self .. : '+' ∈ Digits.ofNat n)
    cases hdigit
  have hall : (Digits.ofNat n).all Char.isDigit = true :=
    List.all_eq_true.2 fun _ hc => Digits.isDigit_ofNat hc
  have hne : (Digits.ofNat n).isEmpty = false := List.isEmpty_eq_false_iff.2 (Digits.ofNat_ne_nil n)
  unfold readCount?
  split
  next rest hdigits => exact absurd hdigits (hplus rest)
  next =>
    simp only [hall, hne, Digits.toNat_ofNat]
    exact if_pos h

end Decimal

end FigureData
