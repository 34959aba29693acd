/-
  Texts and their UTF-8 forms.

  Proved:
  * `Bytes.ofText_lt_iff`: the UTF-8 form keeps the order of texts, so comparing characters
    and comparing bytes is the same.
  * `Bytes.flatMap_suffix_iff`: whether a text ends in given ASCII characters can be told from
    the bytes.
-/
import Mathlib.Data.List.Induction
import Mathlib.Data.String.Basic
import FigureData.Bytes

namespace FigureData.Bytes

open String (utf8EncodeChar)

theorem ofText_eq_flatMap (s : String) : ofText s = s.toList.flatMap utf8EncodeChar := by
  unfold ofText
  rw [← String.utf8Encode_toList]
  simp [List.utf8Encode]

/-! ## Order -/

theorem charCode_lt (c : Char) : c.val.toNat < 0x110000 := by
  have hvalid := c.valid
  unfold UInt32.isValidChar Nat.isValidChar at hvalid
  omega

/-- A smaller character has a smaller UTF-8 form, whatever follows. -/
theorem utf8EncodeChar_append_lt {c d : Char} (h : c < d) (u v : Bytes) :
    utf8EncodeChar c ++ u < utf8EncodeChar d ++ v := by
  have hlt : c.val.toNat < d.val.toNat := h
  have hd : d.val.toNat < 0x110000 := charCode_lt d
  unfold utf8EncodeChar
  generalize c.val.toNat = m, d.val.toNat = n at *
  simp only
  -- one case for each pair of lengths; the first byte that differs decides
  split_ifs <;> simp only [List.cons_append, List.nil_append, List.cons_lt_cons_iff,
    UInt8.lt_iff_toNat_lt, ← UInt8.toNat_inj, UInt8.toNat_ofNat'] <;>
    simp (disch := omega) only [Nat.mod_eq_of_lt] <;> omega

theorem flatMap_utf8EncodeChar_lt {s t : List Char} (h : s < t) :
    s.flatMap utf8EncodeChar < t.flatMap utf8EncodeChar := by
  induction h with
  | nil =>
    next d t =>
    rw [List.flatMap_nil, List.flatMap_cons]
    obtain ⟨byte, rest, henc⟩ := List.exists_cons_of_ne_nil (String.utf8EncodeChar_ne_nil (c := d))
    rw [henc]
    exact .nil
  | cons h ih =>
    rw [List.flatMap_cons, List.flatMap_cons]
    exact List.Lex.append_left _ ih _
  | rel h => exact utf8EncodeChar_append_lt h _ _

theorem ofText_lt_of_lt {s t : String} (h : s < t) : ofText s < ofText t := by
  rw [ofText_eq_flatMap, ofText_eq_flatMap]
  exact flatMap_utf8EncodeChar_lt (String.lt_iff_toList_lt.1 h)

/-- The UTF-8 form keeps the order of texts. -/
theorem ofText_lt_iff {s t : String} : ofText s < ofText t ↔ s < t := by
  constructor
  · intro h
    rcases lt_trichotomy s t with hlt | rfl | hgt
    · exact hlt
    · exact absurd h (List.lt_irrefl _)
    · exact absurd h (List.lt_asymm (ofText_lt_of_lt hgt))
  · exact ofText_lt_of_lt

/-! ## Ends of texts -/

/-- Is the character encoded as the byte of its code? -/
def isAscii (c : Char) : Bool := c.val.toNat ≤ 0x7f

theorem utf8EncodeChar_of_isAscii {c : Char} (h : isAscii c = true) :
    utf8EncodeChar c = [UInt8.ofNat c.val.toNat] := by
  have hle : c.val.toNat ≤ 0x7f := of_decide_eq_true h
  unfold utf8EncodeChar
  exact if_pos hle

/-- The form of any other character ends in a byte that encodes none. -/
theorem utf8EncodeChar_of_not_isAscii {c : Char} (h : ¬ isAscii c = true) :
    ∃ front last, utf8EncodeChar c = front ++ [last] ∧ 128 ≤ last.toNat := by
  have hgt : ¬ c.val.toNat ≤ 0x7f := fun hle => h (decide_eq_true hle)
  have hlast : ∀ n, 128 ≤ (UInt8.ofNat (n % 64 + 128)).toNat := by
    intro n
    rw [UInt8.toNat_ofNat']
    omega
  unfold utf8EncodeChar
  simp only [if_neg hgt]
  split_ifs
  · exact ⟨[_], _, rfl, hlast _⟩
  · exact ⟨[_, _], _, rfl, hlast _⟩
  · exact ⟨[_, _, _], _, rfl, hlast _⟩

/-- A last character that is encoded as one byte is seen in that byte. -/
theorem eq_of_last_byte {c d : Char} (hc : isAscii c = true) {u v : Bytes}
    (h : u ++ utf8EncodeChar c = v ++ utf8EncodeChar d) : c = d ∧ u = v := by
  rw [utf8EncodeChar_of_isAscii hc] at h
  have hle : c.val.toNat ≤ 0x7f := of_decide_eq_true hc
  by_cases hd : isAscii d = true
  · rw [utf8EncodeChar_of_isAscii hd] at h
    have hle' : d.val.toNat ≤ 0x7f := of_decide_eq_true hd
    obtain ⟨huv, hbyte⟩ := List.append_inj' h rfl
    have hcode := congrArg UInt8.toNat (List.singleton_inj.1 hbyte)
    rw [UInt8.toNat_ofNat', UInt8.toNat_ofNat', Nat.mod_eq_of_lt (by omega),
      Nat.mod_eq_of_lt (by omega)] at hcode
    exact ⟨Char.ext (UInt32.toNat_inj.1 hcode), huv⟩
  · obtain ⟨front, last, henc, hlast⟩ := utf8EncodeChar_of_not_isAscii hd
    rw [henc, ← List.append_assoc] at h
    obtain ⟨-, hbyte⟩ := List.append_inj' h rfl
    rw [← List.singleton_inj.1 hbyte, UInt8.toNat_ofNat'] at hlast
    omega

/-- Whether a text ends in one of ASCII characters can be told from the bytes. -/
theorem flatMap_suffix_iff {tail s : List Char} (hascii : ∀ c ∈ tail, isAscii c = true) :
    tail.flatMap utf8EncodeChar <:+ s.flatMap utf8EncodeChar ↔ tail <:+ s := by
  constructor
  · induction tail using List.reverseRecOn generalizing s with
    | nil => exact fun _ => List.nil_suffix
    | append_singleton tail c ih =>
      rw [List.forall_mem_append, List.forall_mem_singleton] at hascii
      rintro ⟨u, hu⟩
      rw [List.flatMap_append, List.flatMap_singleton, ← List.append_assoc] at hu
      rcases List.eq_nil_or_concat' s with rfl | ⟨s, d, rfl⟩
      · rw [utf8EncodeChar_of_isAscii hascii.2] at hu
        exact absurd hu (by simp)
      · rw [List.flatMap_append, List.flatMap_singleton] at hu
        obtain ⟨rfl, hfront⟩ := eq_of_last_byte hascii.2 hu
        obtain ⟨front, rfl⟩ := ih hascii.1 ⟨u, hfront⟩
        exact ⟨front, (List.append_assoc ..).symm⟩
  · rintro ⟨front, rfl⟩
    rw [List.flatMap_append]
    exact List.suffix_append _ _
end FigureData.Bytes
