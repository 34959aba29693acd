/-
  The words that are written: literal names and numerals.

  Everything that is written without quotes consists of word characters, so that the scanner
  takes it as one word, whatever double it is.  Integers that fit 64 bits spell themselves.

  Proved:
  * `isWordChar_writeFloat`, `isWordChar_writeInt`: numerals consist of word characters.
  * `word?_writeInt`: an integer that fits 64 bits spells itself.
  * `scan_word`: a word is scanned as one token where no other word character follows.
-/
import FigureData.Json.Printer
import FigureData.Json.Token
import Mathlib.Algebra.Ring.Int.Defs
import Mathlib.Data.List.TakeDrop

namespace FigureData

/-! ## Digits -/

namespace Digits

theorem toNat_ofNat (n : Nat) : toNat (ofNat n) = n :=
  Nat.ofDigitChars_toDigits (by decide) (by decide)

theorem isDigit_ofNat {n : Nat} {c : Char} (h : c ∈ ofNat n) : c.isDigit = true :=
  Nat.isDigit_of_mem_toDigits (by decide) (by decide) h

theorem ofNat_ne_nil (n : Nat) : ofNat n ≠ [] := Nat.toDigits_ne_nil

theorem ofNat_append (n d : Nat) (hn : 0 < n) (hd : d < 10) :
    ofNat (10 * n + d) = ofNat n ++ [Nat.digitChar d] := by
  unfold ofNat
  rw [← Nat.toDigits_append_toDigits (by decide) hn hd, Nat.toDigits_of_lt_base hd]

/-- The digits of a positive number do not start with zero. -/
theorem head?_ofNat {n : Nat} (hn : 0 < n) : (ofNat n).head? ≠ some '0' := by
  induction n using Nat.strongRecOn with
  | ind n ih =>
    by_cases hsmall : n < 10
    · unfold ofNat
      rw [Nat.toDigits_of_lt_base hsmall]
      have hdigit : ∀ d < 10, 0 < d → some (Nat.digitChar d) ≠ some '0' := by decide
      exact hdigit n hsmall hn
    · have hquotient : 0 < n / 10 := by omega
      have hsplit : n = 10 * (n / 10) + n % 10 := by omega
      obtain ⟨c, rest, hdigits⟩ := List.exists_cons_of_ne_nil (ofNat_ne_nil (n / 10))
      have hhead := ih (n / 10) (by omega) hquotient
      rw [hdigits] at hhead
      rw [hsplit, ofNat_append _ _ hquotient (by omega), hdigits]
      exact hhead

theorem take_of_digits {digits : List Char} (h : ∀ c ∈ digits, c.isDigit = true) :
    take digits = (digits, []) := by
  unfold take
  rw [List.span_eq_takeWhile_dropWhile]
  induction digits with
  | nil => rfl
  | cons c rest ih =>
    rw [List.forall_mem_cons] at h
    obtain ⟨htake, hdrop⟩ := Prod.mk.inj (ih h.2)
    rw [List.takeWhile_cons_of_pos h.1, List.dropWhile_cons_of_pos h.1, htake, hdrop]

end Digits

namespace Json

/-! ## Characters of words -/

theorem isWordChar_of_isDigit {c : Char} (h : c.isDigit = true) : isWordChar c = true := by
  unfold isWordChar Char.isAlphanum
  rw [h, Bool.or_true]
  rfl

theorem isWordChar_ofNat (n : Nat) : ∀ c ∈ Digits.ofNat n, isWordChar c = true :=
  fun _ hc => isWordChar_of_isDigit (Digits.isDigit_ofNat hc)

theorem isWordChar_zeros (n : Nat) : ∀ c ∈ Layout.zeros n, isWordChar c = true := by
  intro c hc
  rw [List.eq_of_mem_replicate hc]
  rfl

section Layout

variable {digits : List Char} (hdigits : ∀ c ∈ digits, isWordChar c = true)

include hdigits

theorem isWordChar_writePositional (keepsPoint : Bool) (point : Int) :
    ∀ c ∈ Layout.writePositional keepsPoint digits point, isWordChar c = true := by
  unfold Layout.writePositional
  simp only
  split_ifs
  · rw [List.forall_mem_cons, List.forall_mem_cons, List.forall_mem_append]
    exact ⟨rfl, rfl, isWordChar_zeros _, hdigits⟩
  · rw [List.forall_mem_append, List.forall_mem_append]
    exact ⟨⟨hdigits, isWordChar_zeros _⟩, List.all_eq_true.1 rfl⟩
  · rw [List.forall_mem_append, List.forall_mem_append]
    exact ⟨⟨hdigits, isWordChar_zeros _⟩, by simp⟩
  · rw [List.forall_mem_append, List.forall_mem_cons]
    exact ⟨fun c hc => hdigits c (List.mem_of_mem_take hc), rfl,
      fun c hc => hdigits c (List.mem_of_mem_drop hc)⟩

theorem isWordChar_writeScientific (plusExponent : Bool) (point : Int) :
    ∀ c ∈ Layout.writeScientific plusExponent digits point, isWordChar c = true := by
  unfold Layout.writeScientific
  simp only
  rw [List.forall_mem_append, List.forall_mem_cons]
  refine ⟨?_, rfl, ?_⟩
  · split
    · simp
    · exact hdigits
    · rw [List.forall_mem_cons] at hdigits
      rw [List.forall_mem_cons, List.forall_mem_cons]
      exact ⟨hdigits.1, rfl, hdigits.2⟩
  · split_ifs
    · exact List.forall_mem_cons.2 ⟨rfl, isWordChar_ofNat _⟩
    · exact List.forall_mem_cons.2 ⟨rfl, isWordChar_ofNat _⟩
    · exact isWordChar_ofNat _

end Layout

theorem isWordChar_writeDecimal (layout : Layout) (d : Decimal) :
    ∀ c ∈ layout.writeDecimal d, isWordChar c = true := by
  have hbody : ∀ c ∈ (if d.coefficient = 0 then if layout.keepsPoint then ['0', '.', '0'] else ['0']
      else if layout.positional ((Digits.ofNat d.coefficient).length + d.exponent) then
        Layout.writePositional layout.keepsPoint (Digits.ofNat d.coefficient)
          ((Digits.ofNat d.coefficient).length + d.exponent)
      else Layout.writeScientific layout.plusExponent (Digits.ofNat d.coefficient)
        ((Digits.ofNat d.coefficient).length + d.exponent)), isWordChar c = true := by
    split_ifs
    · exact List.all_eq_true.1 rfl
    · exact List.all_eq_true.1 rfl
    · exact isWordChar_writePositional (isWordChar_ofNat _) _ _
    · exact isWordChar_writeScientific (isWordChar_ofNat _) _ _
  unfold Layout.writeDecimal
  simp only
  split
  · exact List.forall_mem_cons.2 ⟨rfl, hbody⟩
  · exact hbody

/-- A double is written in word characters. -/
theorem isWordChar_writeFloat (x : Float) : ∀ c ∈ writeFloat x, isWordChar c = true := by
  unfold writeFloat
  split
  · exact isWordChar_writeDecimal _ _
  · exact List.all_eq_true.1 rfl

theorem isWordChar_writeInt (n : Int) : ∀ c ∈ writeInt n, isWordChar c = true := by
  unfold writeInt
  split
  · exact List.forall_mem_cons.2 ⟨rfl, isWordChar_ofNat _⟩
  · exact isWordChar_ofNat _

/-! ## Integers -/

theorem takeWhole?_ofNat (n : Nat) : takeWhole? (Digits.ofNat n) = some (Digits.ofNat n, []) := by
  unfold takeWhole?
  rw [Digits.take_of_digits fun c hc => Digits.isDigit_ofNat hc]
  simp only
  split
  next h => exact absurd h (Digits.ofNat_ne_nil n)
  next => rfl
  next rest hne h =>
    -- only zero itself starts with a zero
    have hzero : n = 0 := by
      by_contra hn
      have hhead := Digits.head?_ofNat (Nat.pos_of_ne_zero hn)
      rw [h] at hhead
      exact hhead rfl
    subst hzero
    cases h
    exact absurd rfl hne
  next => rfl

theorem readNumber?_ofNat (n : Nat) :
    readNumber? (Digits.ofNat n) = some (integer? false (Digits.ofNat n)) := by
  unfold readNumber?
  split
  next negative cs h =>
    have hsign : (negative, cs) = (false, Digits.ofNat n) := by
      rw [← h]
      split
      next rest hrest =>
        have hdash : '-' ∈ Digits.ofNat n := by
          rw [hrest]
          exact List.mem_cons_self ..
        exact absurd (Digits.isDigit_ofNat hdash) (by decide)
      next => rfl
    cases hsign
    rw [takeWhole?_ofNat]
    rfl

theorem readNumber?_neg_ofNat (n : Nat) :
    readNumber? ('-' :: Digits.ofNat n) = some (integer? true (Digits.ofNat n)) := by
  unfold readNumber?
  simp only
  rw [takeWhole?_ofNat]
  rfl

theorem word?_of_isDigit {cs : List Char} {c : Char} (hc : c ∈ cs) (hdigit : c.isDigit = true) :
    word? cs = readNumber? cs := by
  have hne : ∀ text : List Char, text.all (!·.isDigit) = true → cs ≠ text := by
    rintro text htext rfl
    have hnot := List.all_eq_true.1 htext c hc
    rw [hdigit] at hnot
    cases hnot
  unfold word?
  rw [if_neg (hne _ rfl), if_neg (hne _ rfl), if_neg (hne _ rfl)]

/-- An integer that fits 64 bits spells itself. -/
theorem word?_writeInt {n : Int} (hlow : -2 ^ 63 ≤ n) (hhigh : n < 2 ^ 64) :
    word? (writeInt n) = some (some (.int n)) := by
  obtain ⟨c, hc⟩ := List.exists_mem_of_ne_nil _ (Digits.ofNat_ne_nil n.natAbs)
  have hdigit := Digits.isDigit_ofNat hc
  unfold writeInt
  split
  next hn =>
    rw [word?_of_isDigit (List.mem_cons_of_mem _ hc) hdigit, readNumber?_neg_ofNat]
    unfold integer?
    rw [Digits.toNat_ofNat]
    simp only [if_true, Nat.pow_eq]
    have habs : -(n.natAbs : Int) = n := by omega
    rw [if_neg (by omega), habs]
  next hn =>
    rw [word?_of_isDigit hc hdigit, readNumber?_ofNat]
    unfold integer?
    rw [Digits.toNat_ofNat]
    simp only [Bool.false_eq_true, if_false, Nat.pow_eq]
    have habs : (n.natAbs : Int) = n := by omega
    rw [if_pos (by omega), habs]

/-! ## Scanning -/

/-- No word goes on at the front of a text. -/
def EndsWord (cs : List Char) : Prop := ∀ c ∈ cs.head?, isWordChar c = false

/-- A word is read on as long as word characters come. -/
theorem scan_word_append (read : List Char) (done : List Token) {cs : List Char}
    (h : ∀ c ∈ cs, isWordChar c = true) (rest : List Char) :
    scan (.word read) done (cs ++ rest) = scan (.word (cs.reverse ++ read)) done rest := by
  induction cs generalizing read with
  | nil => rfl
  | cons c more ih =>
    rw [List.forall_mem_cons] at h
    rw [List.cons_append, scan, scanChar, if_pos h.1]
    show scan (.word (c :: read)) done (more ++ rest) = _
    rw [ih _ h.2, List.reverse_cons, List.append_assoc, List.singleton_append]

/-- The end of a word is seen from what follows. -/
theorem scan_word_end {read : List Char} {value : Option Json} (h : word? read.reverse = some value)
    (done : List Token) {rest : List Char} (hrest : EndsWord rest) :
    scan (.word read) done rest = scan .between (.word value :: done) rest := by
  cases rest with
  | nil =>
    simp only [scan, scanEnd, h, Option.map_some, List.reverse_cons, List.append_nil]
  | cons c more =>
    have hc : isWordChar c = false := hrest c rfl
    rw [scan, scan, scanChar, scanChar, if_neg (ne_true_of_eq_false hc), h]
    cases startToken c with
    | none => rfl
    | some x =>
      obtain ⟨next, tokens⟩ := x
      show scan next ((Token.word value :: tokens).reverse ++ done) more = _
      rw [List.reverse_cons, List.append_assoc, List.singleton_append]

theorem startToken_of_isWordChar {c : Char} (h : isWordChar c = true) :
    startToken c = some (.word [c], []) := by
  unfold startToken
  split
  case h_12 => exact if_pos h
  all_goals exact absurd h (by decide)

/-- A word is scanned as one token where no other word character follows. -/
theorem scan_word {cs : List Char} {value : Option Json} (h : word? cs = some value)
    (hcs : ∀ c ∈ cs, isWordChar c = true) (done : List Token) {rest : List Char}
    (hrest : EndsWord rest) :
    scan .between done (cs ++ rest) = scan .between (.word value :: done) rest := by
  cases cs with
  | nil => cases h
  | cons c more =>
    rw [List.forall_mem_cons] at hcs
    rw [List.cons_append, scan, scanChar, startToken_of_isWordChar hcs.1]
    show scan (.word [c]) done (more ++ rest) = _
    rw [scan_word_append _ _ hcs.2, scan_word_end _ _ hrest]
    rw [List.reverse_append, List.reverse_reverse]
    exact h

/-- A text of word characters is one word, if it is any. -/
theorem tokens?_of_isWordChar {cs : List Char} (hne : cs ≠ [])
    (hcs : ∀ c ∈ cs, isWordChar c = true) :
    tokens? cs = (word? cs).map fun value => [.word value] := by
  cases cs with
  | nil => exact absurd rfl hne
  | cons c more =>
    rw [List.forall_mem_cons] at hcs
    have hscan := scan_word_append [c] [] hcs.2 []
    rw [List.append_nil] at hscan
    rw [tokens?, scan, scanChar, startToken_of_isWordChar hcs.1]
    show scan (.word [c]) [] more = _
    rw [hscan, scan, scanEnd, List.reverse_append, List.reverse_reverse, Option.map_map]
    rfl

end Json

end FigureData
