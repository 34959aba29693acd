/-
  Patterns that ask for the end of a name: any bytes, then literal text.

  The places reached are followed byte by byte.  After the star every place is reached, and
  after each literal byte those are left that come behind the bytes read so far.

  Proved:
  * `getElem?_pastBytes`: the places reached past given bytes from anywhere.
  * `matchesName_suffix_iff`: a star and ASCII text match the names that end in the text.
-/
import FigureData.Glob.Match
import FigureData.Proofs.Text.Utf8

namespace FigureData.Glob

open String (utf8EncodeChar)

/-! ## Places -/

/-- All places of a name. -/
def everywhere (name : Bytes) : Reached := List.replicate (name.length + 1) true

theorem fromFirst_front (name : Bytes) : fromFirst (front name) = everywhere name := by
  unfold front fromFirst everywhere
  rw [List.map_map, List.replicate_succ, ← List.map_const']
  rfl

theorem getElem?_pastByte_succ (p : UInt8 → Bool) (name : Bytes) (reached : Reached) (i : Nat) :
    (pastByte p name reached)[i + 1]? = some true ↔
      reached[i]? = some true ∧ ∃ b, name[i]? = some b ∧ p b = true := by
  unfold pastByte
  rw [List.getElem?_cons_succ, List.getElem?_zipWith]
  cases name[i]? with
  | none => simp
  | some b =>
    cases reached[i]? with
    | none => simp
    | some here => simp

theorem length_pastBytes {bytes name : Bytes} {reached : Reached}
    (h : reached.length = name.length + 1) :
    (pastBytes bytes name reached).length = name.length + 1 := by
  unfold pastBytes
  induction bytes generalizing reached with
  | nil => exact h
  | cons b rest ih => exact ih (length_pastByte h)

/-- From anywhere, the places behind the given bytes are reached. -/
theorem getElem?_pastBytes (bytes name : Bytes) {i : Nat} (hi : i ≤ name.length) :
    (pastBytes bytes name (everywhere name))[i]? = some true ↔ bytes <:+ name.take i := by
  induction bytes using List.reverseRecOn generalizing i with
  | nil =>
    unfold pastBytes everywhere
    rw [List.foldl_nil, List.getElem?_replicate, if_pos (by omega)]
    exact iff_of_true rfl List.nil_suffix
  | append_singleton bytes b ih =>
    have hpast : pastBytes (bytes ++ [b]) name (everywhere name) =
        pastByte (· == b) name (pastBytes bytes name (everywhere name)) := by
      unfold pastBytes
      rw [List.foldl_append]
      rfl
    rw [hpast]
    cases i with
    | zero =>
      rw [List.take_zero, List.suffix_nil]
      exact iff_of_false (by simp [pastByte]) (by simp)
    | succ i =>
      have hlt : i < name.length := by omega
      rw [getElem?_pastByte_succ, ih (by omega), List.take_succ_eq_append_getElem hlt,
        List.suffix_concat_iff, List.getElem?_eq_getElem hlt]
      constructor
      · rintro ⟨hbefore, b', hb', heq⟩
        cases hb'
        refine .inr ⟨bytes, ?_, hbefore⟩
        rw [beq_iff_eq.1 heq]
      · rintro (hnil | ⟨before, heq, hbefore⟩)
        · exact absurd hnil (by simp)
        · obtain ⟨rfl, hlast⟩ := List.append_inj' heq rfl
          exact ⟨hbefore, _, rfl, beq_iff_eq.2 (List.singleton_inj.1 hlast).symm⟩

/-! ## Names -/

/-- Literal tokens of a text. -/
theorem advanceAll_literals (name : Bytes) (text : List Char) (reached : Reached) :
    advanceAll name (text.map .literal) reached =
      pastBytes (text.flatMap utf8EncodeChar) name reached := by
  induction text generalizing reached with
  | nil => rfl
  | cons c rest ih =>
    have hliteral : Token.advance name (.literal c) reached =
        pastBytes (utf8EncodeChar c) name reached := by
      unfold Token.advance
      rw [Bytes.ofText_eq_flatMap, String.toList_singleton, List.flatMap_singleton]
    rw [List.map_cons, advanceAll, hliteral, ih, List.flatMap_cons]
    unfold pastBytes
    rw [List.foldl_append]

/-- A star and ASCII text match the names that end in the text. -/
theorem matchesName_suffix_iff {tail : List Char} (hascii : ∀ c ∈ tail, Bytes.isAscii c = true)
    (hdot : tail.getLast? ≠ some '.') (name : String) :
    matchesName (.zeroOrMore :: tail.map .literal) name = true ↔ tail <:+ name.toList := by
  have hend : endsInDot (.zeroOrMore :: tail.map .literal) = false := by
    unfold endsInDot
    rw [List.getLast?_cons, List.getLast?_map]
    cases hlast : tail.getLast? with
    | none => rfl
    | some c =>
      have hne : c ≠ '.' := fun h => hdot (hlast.trans (congrArg some h))
      simp [hne]
  have hreached : advanceAll (Bytes.ofText name) (.zeroOrMore :: tail.map .literal)
      (front (Bytes.ofText name)) =
      pastBytes (tail.flatMap utf8EncodeChar) (Bytes.ofText name) (everywhere (Bytes.ofText name)) := by
    rw [advanceAll, Token.advance, fromFirst_front, advanceAll_literals]
  unfold matchesName atEnd
  simp only [hend, Bool.and_false, Bool.false_and, Bool.not_false, Bool.and_true, hreached]
  rw [decide_eq_true_eq, List.getLast?_eq_getElem?, length_pastBytes (by simp [everywhere]),
    Nat.add_sub_cancel, getElem?_pastBytes _ _ (Nat.le_refl _), List.take_length,
    Bytes.ofText_eq_flatMap, Bytes.flatMap_suffix_iff hascii]

end FigureData.Glob
