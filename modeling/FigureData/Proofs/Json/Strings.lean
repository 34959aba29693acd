/-
  Strings that are written read back, whatever characters they hold.

  Proved:
  * `scan_escapeChar`: a character that is written is scanned as the code unit it is.
  * `charsOfUnits?_toNat`: the code units of characters are those characters again.
  * `scan_writeString`: a string is scanned as one token with its text.
-/
import FigureData.Json.Printer
import FigureData.Json.Token

namespace FigureData.Json

/-! ## Characters -/

theorem hexValue?_hexDigit {n : Nat} (h : n < 16) : hexValue? (hexDigit n) = some n := by
  have hall : ∀ n < 16, hexValue? (hexDigit n) = some n := by decide
  exact hall n h

/-- Four hexadecimal digits that begin with two zeros. -/
theorem scan_hex {high low : Nat} (hhigh : high < 16) (hlow : low < 16) (read : List Nat)
    (done : List Token) (rest : List Char) :
    scan (.hex read 4 0) done ('0' :: '0' :: hexDigit high :: hexDigit low :: rest) =
      scan (.string ((16 * high + low) :: read)) done rest := by
  have hzero : hexValue? '0' = some 0 := by decide
  simp only [scan, scanChar, hzero, hexValue?_hexDigit hhigh, hexValue?_hexDigit hlow,
    Option.map_some]
  simp

/-- A character that is written is scanned as the code unit it is. -/
theorem scan_escapeChar (c : Char) (read : List Nat) (done : List Token) (rest : List Char) :
    scan (.string read) done (escapeChar c ++ rest) =
      scan (.string (c.toNat :: read)) done rest := by
  unfold escapeChar
  split
  case h_8 hquote hbackslash _ _ _ _ _ =>
    split
    next hcontrol =>
      show scan (.hex read 4 0) done
        ('0' :: '0' :: hexDigit (c.toNat / 16) :: hexDigit (c.toNat % 16) :: rest) = _
      rw [scan_hex (by omega) (by omega), Nat.div_add_mod]
    next hcontrol =>
      rw [List.singleton_append, scan, scanChar, if_neg hquote, if_neg hbackslash,
        if_neg hcontrol]
      rfl
  all_goals rfl

/-! ## Code units -/

/-- A character is no half of a surrogate pair. -/
theorem not_surrogate (c : Char) :
    isHighSurrogate c.toNat = false ∧ isLowSurrogate c.toNat = false := by
  have hvalid := c.valid
  unfold isHighSurrogate isLowSurrogate
  simp only [Bool.and_eq_false_iff, decide_eq_false_iff_not]
  have hrange : c.toNat < 0xD800 ∨ 0xDFFF < c.toNat := by
    rcases hvalid with h | h
    · exact .inl h
    · exact .inr h.1
  omega

theorem charsOfUnits?_cons (c : Char) (units : List Nat) :
    charsOfUnits? (c.toNat :: units) = (charsOfUnits? units).map (c :: ·) := by
  obtain ⟨hhigh, hlow⟩ := not_surrogate c
  cases units with
  | nil =>
    rw [charsOfUnits?, charsOfUnits?, hhigh, hlow]
    simp
  | cons unit rest =>
    rw [charsOfUnits?, hhigh, hlow, Char.ofNat_toNat]
    rfl

/-- The code units of characters are those characters again. -/
theorem charsOfUnits?_toNat (cs : List Char) : charsOfUnits? (cs.map Char.toNat) = some cs := by
  induction cs with
  | nil => rfl
  | cons c rest ih =>
    rw [List.map_cons, charsOfUnits?_cons, ih]
    rfl

/-! ## Strings -/

theorem scan_escaped (cs : List Char) (read : List Nat) (done : List Token) (rest : List Char) :
    scan (.string read) done (cs.flatMap escapeChar ++ rest) =
      scan (.string ((cs.map Char.toNat).reverse ++ read)) done rest := by
  induction cs generalizing read with
  | nil => rfl
  | cons c more ih =>
    rw [List.flatMap_cons, List.append_assoc, scan_escapeChar, ih, List.map_cons,
      List.reverse_cons, List.append_assoc, List.singleton_append]

/-- A string is scanned as one token with its text. -/
theorem scan_writeString (s : String) (done : List Token) (rest : List Char) :
    scan .between done (writeString s ++ rest) = scan .between (.string (some s) :: done) rest := by
  unfold writeString
  rw [List.cons_append, List.append_assoc]
  show scan (.string []) done (s.toList.flatMap escapeChar ++ '"' :: rest) = _
  rw [scan_escaped, List.append_nil]
  show scan .between (stringToken (s.toList.map Char.toNat).reverse :: done) rest = _
  rw [stringToken, List.reverse_reverse, charsOfUnits?_toNat, Option.map_some,
    String.ofList_toList]

end FigureData.Json
