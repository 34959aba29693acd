/-
  Numbers read from JSON text are finite.

  A numeral beyond the range of doubles has no value, and a text with one has no document.
  So neither an infinity nor a value that is not a number can come out of a file.

  Proved:
  * `isFinite_scale?`: a significand of 64 bits scaled by a power of ten is finite.
  * `isFinite_word?`: so is every number that a word spells.
  * `isFinite_readSelected?`, `isFinite_readSorted?`: so are all numbers of a document.
  * `IsFinite.at?`, `IsFinite.member?`, `IsFinite.items?`: and of its parts.
-/
import FigureData.Json.Pointer
import FigureData.Proofs.Binary64.Arithmetic
import FigureData.Proofs.Json.Sorted
import FigureData.Proofs.Json.Spelled

namespace FigureData

open Binary64

namespace Json

/-! ## Numerals -/

theorem isFinite_ofNat {n : ℕ} (hn : n ≤ 2 ^ 64) : (Binary64.ofNat n).isFinite = true := by
  refine (isRounded_ofNat n).isFinite (k := 1087 * 2 ^ 52) ?_ (by norm_num [infinityBits])
  have hn' : (n : ℚ) ≤ 2 ^ 64 := by exact_mod_cast hn
  norm_num [scale] at hn' ⊢
  exact hn'

theorem isFinite_ofInt {n : ℤ} (hn : n.natAbs ≤ 2 ^ 64) : (Binary64.ofInt n).isFinite = true := by
  cases n with
  | ofNat m => exact isFinite_ofNat hn
  | negSucc m => exact isFinite_neg (isFinite_ofNat hn)

theorem isFinite_div_powerOfTen {x : Float} (hx : x.isFinite = true) {n : ℕ} (hn : n ≤ 308) :
    (x / powerOfTen n).isFinite = true := by
  obtain ⟨hone, hfinite⟩ := powerOfTen_bounds hn
  rw [isFinite_iff]
  exact (magnitudeBits_div_le hx (isFinite_iff.2 hfinite) hone).trans_lt (isFinite_iff.1 hx)

/-- A significand of 64 bits scaled by a power of ten is finite. -/
theorem isFinite_scale? {significand : ℕ} (h : significand < 2 ^ 64) {exponent : ℤ} {x : Float}
    (hx : scale? significand exponent = some x) : x.isFinite = true := by
  have hf := isFinite_ofNat h.le
  unfold scale? at hx
  simp only at hx
  split at hx
  · split at hx
    · cases hx
      exact hf
    split at hx
    · cases hx
    split at hx
    next hfinite =>
      cases hx
      exact hfinite
    next => cases hx
  split at hx
  next hn =>
    cases hx
    exact isFinite_div_powerOfTen hf hn
  split at hx
  next hn =>
    cases hx
    exact isFinite_div_powerOfTen (isFinite_div_powerOfTen hf le_rfl) (by omega)
  next =>
    cases hx
    rfl

theorem fitDigits_lt {significand : ℕ} (h : significand < 2 ^ 64) (cs : List Char) :
    (fitDigits significand cs).1 < 2 ^ 64 := by
  induction cs generalizing significand with
  | nil => exact h
  | cons c rest ih =>
    unfold fitDigits
    simp only [Nat.pow_eq]
    split
    next hnext => exact ih hnext
    next => exact h

/-! ## Documents -/

/-- All numbers of a document are finite. -/
inductive IsFinite : Json → Prop
  | null : IsFinite .null
  | bool (b : Bool) : IsFinite (.bool b)
  | int {n : ℤ} (h : n.natAbs ≤ 2 ^ 64) : IsFinite (.int n)
  | float {x : Float} (h : x.isFinite = true) : IsFinite (.float x)
  | string (s : String) : IsFinite (.string s)
  | array {items : List Json} (h : ∀ j ∈ items, IsFinite j) : IsFinite (.array items)
  | object {members : List (String × Json)} (h : ∀ m ∈ members, IsFinite m.2) :
      IsFinite (.object members)

theorem isFinite_double? {negative : Bool} {whole fraction : List Char} {power : ℤ} {j : Json}
    (h : double? negative whole fraction power = some j) : IsFinite j := by
  unfold double? at h
  have hwhole := fitDigits_lt (by norm_num : 0 < 2 ^ 64) whole
  have hfraction := fitDigits_lt hwhole fraction
  obtain ⟨x, hx, h⟩ := Option.bind_eq_some_iff.1 h
  cases h
  have hx' := isFinite_scale? hfraction hx
  cases negative with
  | false => exact .float hx'
  | true => exact .float (isFinite_neg hx')

theorem isFinite_integer? {negative : Bool} {digits : List Char} {j : Json}
    (h : integer? negative digits = some j) : IsFinite j := by
  unfold integer? at h
  simp only [Nat.pow_eq] at h
  split at h
  · split at h
    · exact isFinite_double? h
    next hn =>
      cases h
      exact .int (by omega)
  · split at h
    next hn =>
      cases h
      exact .int (by omega)
    next => exact isFinite_double? h

theorem isFinite_readNumber? {cs : List Char} {j : Json} (h : readNumber? cs = some (some j)) :
    IsFinite j := by
  unfold readNumber? at h
  split at h
  next negative cs hsign =>
  obtain ⟨⟨whole, rest⟩, -, h⟩ := Option.bind_eq_some_iff.1 h
  simp only at h
  split at h
  · exact isFinite_integer? (Option.some.inj h)
  · obtain ⟨⟨fraction, rest⟩, -, h⟩ := Option.bind_eq_some_iff.1 h
    obtain ⟨power, -, h⟩ := Option.bind_eq_some_iff.1 h
    exact isFinite_double? (Option.some.inj h)

/-- Every number that a word spells is finite. -/
theorem isFinite_word? {cs : List Char} {j : Json} (h : word? cs = some (some j)) :
    IsFinite j := by
  unfold word? at h
  split at h
  · cases h
    exact .null
  split at h
  · cases h
    exact .bool true
  split at h
  · cases h
    exact .bool false
  · exact isFinite_readNumber? h

/-- Every number of a text that is read is finite, as every number that a word spells is. -/
theorem IsSpelled.isFinite {room : ℕ} {j : Json} (h : IsSpelled room j) : IsFinite j := by
  induction h with
  | string _ s => exact .string s
  | word _ hword => exact isFinite_word? hword
  | array _ ih => exact .array ih
  | object _ ih => exact .object ih

/-- All numbers of a document that was read from text are finite. -/
theorem isFinite_readSelected? {s : Selection} {text : String} {j : Json}
    (h : readSelected? s text = some j) : IsFinite j :=
  (isSpelled_readSelected? h).isFinite

/-- Sorting keeps numbers as they are. -/
theorem isFinite_sorted {j : Json} (h : IsFinite j) : IsFinite j.sorted := by
  induction h with
  | null => exact .null
  | bool b => exact .bool b
  | int hn => exact .int hn
  | float hx => exact .float hx
  | string s => exact .string s
  | array _ ih =>
    rw [sorted_array]
    exact .array (List.forall_mem_map.2 ih)
  | object _ ih =>
    rw [sorted_object]
    refine .object fun m hm => ?_
    obtain ⟨m', hm', rfl⟩ := mem_memberMap hm
    exact ih m' hm'

/-- So are those of free-form data. -/
theorem isFinite_readSorted? {text : String} {j : Json} (h : readSorted? text = some j) :
    IsFinite j := by
  obtain ⟨read, hread, rfl⟩ := Option.map_eq_some_iff.1 h
  exact isFinite_sorted (isFinite_readSelected? hread)

/-! ## Parts of a document -/

namespace IsFinite

theorem lookup {members : List (String × Json)} (h : ∀ m ∈ members, IsFinite m.2) {name : String}
    {j : Json} (hj : members.lookup name = some j) : IsFinite j := by
  induction members with
  | nil => cases hj
  | cons head rest ih =>
    obtain ⟨key, value⟩ := head
    rw [List.forall_mem_cons] at h
    rw [List.lookup_cons] at hj
    split at hj
    · cases hj
      exact h.1
    · exact ih h.2 hj

theorem member? {j part : Json} (h : IsFinite j) {name : String}
    (hpart : j.member? name = some part) : IsFinite part := by
  cases h with
  | object hmembers => exact lookup hmembers hpart
  | _ => cases hpart

theorem items? {j : Json} (h : IsFinite j) {items : List Json} (hitems : j.items? = some items) :
    ∀ part ∈ items, IsFinite part := by
  cases h with
  | array h =>
    cases hitems
    exact h
  | _ => cases hitems

theorem child? {j part : Json} (h : IsFinite j) {step : String}
    (hpart : j.child? step = some part) : IsFinite part := by
  cases h with
  | object hmembers => exact lookup hmembers hpart
  | array hitems =>
    obtain ⟨i, -, hi⟩ := Option.bind_eq_some_iff.1 hpart
    exact hitems part (List.mem_of_getElem? hi)
  | _ => cases hpart

theorem descend? {steps : List String} {j part : Json} (h : IsFinite j)
    (hpart : j.descend? steps = some part) : IsFinite part := by
  induction steps generalizing j with
  | nil =>
    cases hpart
    exact h
  | cons step rest ih =>
    obtain ⟨next, hnext, hpart⟩ := Option.bind_eq_some_iff.1 hpart
    exact ih (h.child? hnext) hpart

theorem at? {j part : Json} (h : IsFinite j) {pointer : String}
    (hpart : j.at? pointer = some part) : IsFinite part := by
  obtain ⟨steps, -, hpart⟩ := Option.bind_eq_some_iff.1 hpart
  exact h.descend? hpart

theorem number? {j : Json} (h : IsFinite j) {x : Float} (hx : j.number? = some x) :
    x.isFinite = true := by
  cases h with
  | int hn =>
    cases hx
    exact isFinite_ofInt hn
  | float hfinite =>
    cases hx
    exact hfinite
  | _ => cases hx

end IsFinite

end Json

end FigureData
