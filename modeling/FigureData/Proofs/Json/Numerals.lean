/-
  The numerals of doubles.

  What is written for a finite double always has a point or an exponent, so it spells a double
  and never an integer.  Which double it spells, and whether that is the one it was written for,
  is up to the reader of numerals: nothing is claimed about it here.

  Proved:
  * `readNumber?_of_isNumeral`: digits with a point or an exponent are read as a double.
  * `isNumeral_writeDecimal`: a decimal is written in that form.
  * `word?_writeFloat`: so what is written for a double is always a word.
  * `eq_float_of_spelled?`: and the word of a finite double spells a double, if it has a value.
-/
import FigureData.Proofs.Json.Words

namespace FigureData

/-! ## Digits at the front -/

namespace Digits

/-- The digits at the front end where another character comes. -/
theorem take_append {digits rest : List Char} (h : ∀ c ∈ digits, c.isDigit = true)
    (hrest : ∀ c ∈ rest.head?, c.isDigit = false) : take (digits ++ rest) = (digits, rest) := by
  unfold take
  rw [List.span_eq_takeWhile_dropWhile, List.takeWhile_append_of_pos h,
    List.dropWhile_append_of_pos h]
  cases rest with
  | nil => rw [List.takeWhile_nil, List.dropWhile_nil, List.append_nil]
  | cons c more =>
    have hc : ¬ c.isDigit = true := ne_true_of_eq_false (hrest c rfl)
    rw [List.takeWhile_cons_of_neg hc, List.dropWhile_cons_of_neg hc, List.append_nil]

end Digits

namespace Json

/-! ## The form of numerals -/

/-- Digits that may stand before a point: at least one, and no zero before others. -/
structure IsWhole (digits : List Char) : Prop where
  isDigit : ∀ c ∈ digits, c.isDigit = true
  ne_nil : digits ≠ []
  zero : digits.head? = some '0' → digits = ['0']

theorem isWhole_of_head {digits : List Char} (h : ∀ c ∈ digits, c.isDigit = true)
    (hne : digits ≠ []) (hhead : digits.head? ≠ some '0') : IsWhole digits :=
  ⟨h, hne, fun hzero => absurd hzero hhead⟩

/-- One digit may be any. -/
theorem isWhole_singleton {d : Char} (h : d.isDigit = true) : IsWhole [d] where
  isDigit := List.forall_mem_singleton.2 h
  ne_nil := List.cons_ne_nil d []
  zero hzero := by
    rw [List.head?_cons, Option.some.injEq] at hzero
    rw [hzero]

/-- Digits with a point and more digits, or with an exponent, or with both. -/
inductive IsNumeral : List Char → Prop
  | point {whole fraction rest : List Char} {power : Int} (hwhole : IsWhole whole)
      (hfraction : ∀ c ∈ fraction, c.isDigit = true) (hne : fraction ≠ [])
      (hpower : Decimal.readExponent? rest = some power) :
      IsNumeral (whole ++ '.' :: (fraction ++ rest))
  | exponent {whole rest : List Char} {power : Int} (hwhole : IsWhole whole) (hne : rest ≠ [])
      (hpower : Decimal.readExponent? rest = some power) : IsNumeral (whole ++ rest)

theorem IsNumeral.exists_digit {body : List Char} (h : IsNumeral body) :
    ∃ c ∈ body, c.isDigit = true := by
  cases h with
  | point hwhole | exponent hwhole =>
    obtain ⟨c, hc⟩ := List.exists_mem_of_ne_nil _ hwhole.ne_nil
    exact ⟨c, List.mem_append_left _ hc, hwhole.isDigit c hc⟩

/-! ## Reading numerals -/

theorem takeWhole?_append {digits rest : List Char} (h : IsWhole digits)
    (hrest : ∀ c ∈ rest.head?, c.isDigit = false) :
    takeWhole? (digits ++ rest) = some (digits, rest) := by
  unfold takeWhole?
  rw [Digits.take_append h.isDigit hrest]
  simp only
  split
  next => exact absurd rfl h.ne_nil
  next => rfl
  next hne => exact absurd (h.zero rfl) fun he => hne (List.cons.inj he).2
  next => rfl

/-- An exponent starts with a letter. -/
theorem head?_of_readExponent? {rest : List Char} {power : Int}
    (h : Decimal.readExponent? rest = some power) : ∀ c ∈ rest.head?, c = 'e' ∨ c = 'E' := by
  cases rest with
  | nil => exact nofun
  | cons c more =>
    intro d hd
    cases hd
    by_contra hc
    simp only [Decimal.readExponent?, if_neg hc, reduceCtorEq] at h

theorem isDigit_of_readExponent? {rest : List Char} {power : Int}
    (h : Decimal.readExponent? rest = some power) : ∀ c ∈ rest.head?, c.isDigit = false := by
  intro c hc
  rcases head?_of_readExponent? h c hc with rfl | rfl
  · rfl
  · rfl

/-- What follows the sign of a numeral is read to its end. -/
theorem readNumber?_of_parts (negative : Bool) {whole tail fraction rest : List Char}
    {power : Int} (hwhole : IsWhole whole) (htail : tail ≠ [])
    (hdigit : ∀ c ∈ tail.head?, c.isDigit = false)
    (hfraction : takeFraction? tail = some (fraction, rest))
    (hpower : Decimal.readExponent? rest = some power) :
    readNumber? (if negative then '-' :: (whole ++ tail) else whole ++ tail) =
      some (double? negative whole fraction power) := by
  have hrest : ((takeWhole? (whole ++ tail)).bind fun parts =>
      if parts.2.isEmpty then some (integer? negative parts.1)
      else (takeFraction? parts.2).bind fun fraction =>
        (Decimal.readExponent? fraction.2).bind fun power =>
          some (double? negative parts.1 fraction.1 power)) =
      some (double? negative whole fraction power) := by
    rw [takeWhole?_append hwhole hdigit, Option.bind_some]
    simp only [List.isEmpty_iff, if_neg htail, hfraction, hpower, Option.bind_some]
  cases negative with
  | true => exact hrest
  | false =>
    obtain ⟨c, more, rfl⟩ := List.exists_cons_of_ne_nil hwhole.ne_nil
    have hdash : c ≠ '-' := by
      rintro rfl
      cases hwhole.isDigit '-' (List.mem_cons_self ..)
    unfold readNumber?
    split
    next negative cs hsign =>
    have hsame : (false, c :: (more ++ tail)) = (negative, cs) := by
      rw [← hsign, List.cons_append]
      split
      next he => exact absurd (List.cons.inj he).1 hdash
      next => rfl
    cases hsame
    exact hrest

/-- A numeral with a point or an exponent is read as a double, if it has a value. -/
theorem readNumber?_of_isNumeral {body : List Char} (h : IsNumeral body) (negative : Bool) :
    ∃ whole fraction power, readNumber? (if negative then '-' :: body else body) =
      some (double? negative whole fraction power) := by
  cases h with
  | @point whole fraction rest power hwhole hfraction hne hpower =>
    refine ⟨whole, fraction, power, readNumber?_of_parts negative hwhole (List.cons_ne_nil _ _) ?_
      ?_ hpower⟩
    · intro c hc
      cases hc
      rfl
    · rw [takeFraction?, Digits.take_append hfraction (isDigit_of_readExponent? hpower)]
      simp only [List.isEmpty_iff, if_neg hne]
  | @exponent whole rest power hwhole hne hpower =>
    refine ⟨whole, [], power, readNumber?_of_parts negative hwhole hne
      (isDigit_of_readExponent? hpower) ?_ hpower⟩
    obtain ⟨c, more, rfl⟩ := List.exists_cons_of_ne_nil hne
    rcases head?_of_readExponent? hpower c rfl with rfl | rfl
    · rfl
    · rfl

theorem readExponent?_ofNat (sign : Char) (hsign : sign = '-' ∨ sign = '+') (n : Nat) :
    ∃ power, Decimal.readExponent? ('e' :: sign :: Digits.ofNat n) = some power := by
  have hempty : (Digits.ofNat n).isEmpty = false := by
    rw [List.isEmpty_eq_false_iff]
    exact Digits.ofNat_ne_nil n
  have hall : (Digits.ofNat n).all Char.isDigit = true :=
    List.all_eq_true.2 fun c hc => Digits.isDigit_ofNat hc
  have hdigits : ((Digits.ofNat n).isEmpty || !(Digits.ofNat n).all Char.isDigit) = false := by
    rw [hempty, hall]
    rfl
  rcases hsign with rfl | rfl
  · exact ⟨_, if_neg (ne_true_of_eq_false hdigits)⟩
  · exact ⟨_, if_neg (ne_true_of_eq_false hdigits)⟩

/-! ## Writing doubles -/

theorem isDigit_zeros (n : Nat) : ∀ c ∈ Layout.zeros n, c.isDigit = true := by
  intro c hc
  rw [List.eq_of_mem_replicate hc]
  rfl

section Layout

variable {digits : List Char} (hdigits : ∀ c ∈ digits, c.isDigit = true) (hne : digits ≠ [])
  (hhead : digits.head? ≠ some '0')

include hdigits hne hhead

theorem isNumeral_writePositional (point : Int) :
    IsNumeral (Layout.writePositional true digits point) := by
  have hempty : Decimal.readExponent? [] = some 0 := rfl
  have hzero : ∀ c ∈ ['0'], c.isDigit = true := List.all_eq_true.1 rfl
  unfold Layout.writePositional
  simp only
  split_ifs with hpoint hlength
  · have hfraction := List.forall_mem_append.2 ⟨isDigit_zeros point.natAbs, hdigits⟩
    have h := IsNumeral.point (isWhole_singleton (d := '0') rfl) hfraction
      (List.append_ne_nil_of_right_ne_nil _ hne) hempty
    rwa [List.append_nil] at h
  · have hwhole : IsWhole (digits ++ Layout.zeros (point.toNat - digits.length)) := by
      refine isWhole_of_head (List.forall_mem_append.2 ⟨hdigits, isDigit_zeros _⟩)
        (List.append_ne_nil_of_left_ne_nil hne _) ?_
      rw [List.head?_append]
      obtain ⟨d, more, rfl⟩ := List.exists_cons_of_ne_nil hne
      exact hhead
    exact .point hwhole hzero (List.cons_ne_nil _ _) hempty
  · have hlt : point.toNat < digits.length := by omega
    have hwhole : IsWhole (digits.take point.toNat) := by
      refine isWhole_of_head (fun c hc => hdigits c (List.mem_of_mem_take hc)) ?_ ?_
      · rw [Ne, List.take_eq_nil_iff]
        exact not_or.2 ⟨by omega, hne⟩
      · rwa [List.head?_take, if_neg (by omega)]
    have h := IsNumeral.point hwhole (fun c hc => hdigits c (List.mem_of_mem_drop hc))
      (List.drop_eq_nil_iff.not.2 (by omega)) hempty
    rwa [List.append_nil] at h

omit hhead in
theorem isNumeral_writeScientific (point : Int) :
    IsNumeral (Layout.writeScientific true digits point) := by
  obtain ⟨power, hpower⟩ : ∃ power, Decimal.readExponent? ('e' ::
      if point - 1 < 0 then '-' :: Digits.ofNat (point - 1).natAbs
      else '+' :: Digits.ofNat (point - 1).natAbs) = some power := by
    split_ifs
    · exact readExponent?_ofNat '-' (.inl rfl) _
    · exact readExponent?_ofNat '+' (.inr rfl) _
  unfold Layout.writeScientific
  simp only
  split
  next => exact absurd rfl hne
  next d =>
    exact .exponent (isWhole_singleton (hdigits d (List.mem_singleton_self d)))
      (List.cons_ne_nil _ _) hpower
  next d more hmore =>
    rw [List.forall_mem_cons] at hdigits
    refine .point (isWhole_singleton hdigits.1) hdigits.2 ?_ hpower
    rintro rfl
    exact hmore rfl

end Layout

/-- A decimal is written with a sign, if it has one, and a numeral. -/
theorem isNumeral_writeDecimal (d : Decimal) :
    ∃ body, IsNumeral body ∧
      numberLayout.writeDecimal d = if d.negative then '-' :: body else body := by
  have hdigit : ∀ c ∈ ['0'], c.isDigit = true := List.all_eq_true.1 rfl
  have hempty : Decimal.readExponent? [] = some 0 := rfl
  have hzero : IsNumeral ['0', '.', '0'] :=
    .point (isWhole_singleton (d := '0') rfl) hdigit (List.cons_ne_nil _ _) hempty
  have hdigits : ∀ c ∈ Digits.ofNat d.coefficient, c.isDigit = true :=
    fun c hc => Digits.isDigit_ofNat hc
  have hne := Digits.ofNat_ne_nil d.coefficient
  refine ⟨_, ?_, rfl⟩
  show IsNumeral (if d.coefficient = 0 then ['0', '.', '0'] else _)
  split_ifs with hcoefficient hpositional
  · exact hzero
  · exact isNumeral_writePositional hdigits hne
      (Digits.head?_ofNat (Nat.pos_of_ne_zero hcoefficient)) _
  · exact isNumeral_writeScientific hdigits hne _

/-- What is written for a finite double spells a double, if it has a value. -/
theorem word?_writeFloat_of_isFinite {x : Float} (h : x.isFinite = true) :
    ∃ negative whole fraction power,
      word? (writeFloat x) = some (double? negative whole fraction power) := by
  obtain ⟨body, hbody, htext⟩ := isNumeral_writeDecimal (Shortest.ofFloat .even x)
  obtain ⟨whole, fraction, power, hread⟩ :=
    readNumber?_of_isNumeral hbody (Shortest.ofFloat .even x).negative
  have hwrite : writeFloat x = numberLayout.writeDecimal (Shortest.ofFloat .even x) := if_pos h
  obtain ⟨c, hc, hdigit⟩ := hbody.exists_digit
  have hmem : c ∈ writeFloat x := by
    rw [hwrite, htext]
    split
    · exact List.mem_cons_of_mem _ hc
    · exact hc
  rw [word?_of_isDigit hmem hdigit, hwrite, htext]
  exact ⟨_, _, _, _, hread⟩

/-! ## What a double is read as -/

/-- What the text of a double spells, if that has a value. -/
def spelled? (x : Float) : Option Json := (word? (writeFloat x)).join

/-- What is written for a double is always a word. -/
theorem word?_writeFloat (x : Float) : word? (writeFloat x) = some (spelled? x) := by
  unfold spelled?
  by_cases h : x.isFinite = true
  · obtain ⟨_, _, _, _, hword⟩ := word?_writeFloat_of_isFinite h
    rw [hword, Option.join_some]
  · have hnull : writeFloat x = "null".toList := if_neg h
    rw [hnull]
    rfl

/-- The text of a finite double spells a double, if it has a value. -/
theorem eq_float_of_spelled? {x : Float} (h : x.isFinite = true) {j : Json}
    (hj : spelled? x = some j) : ∃ y, j = .float y := by
  obtain ⟨negative, whole, fraction, power, hword⟩ := word?_writeFloat_of_isFinite h
  unfold spelled? at hj
  rw [hword, Option.join_some] at hj
  obtain ⟨y, -, hy⟩ := Option.bind_eq_some_iff.1 hj
  exact ⟨_, (Option.some.inj hy).symm⟩

end Json

end FigureData
