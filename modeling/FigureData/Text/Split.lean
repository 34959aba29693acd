/-
  Cutting text into pieces: at a separator, into lines, into words.

  * `splitAt` yields the pieces before and after each separator.
  * `lines` drops the line ends, LF or CRLF, and yields nothing for an empty
    last line.
-/
import FigureData.Text.Blank

namespace FigureData.Text

/-- The pieces between occurrences of `sep`; always at least one piece. -/
def splitAt (sep : Char) : List Char → List (List Char)
  | [] => [[]]
  | c :: rest =>
    if c = sep then [] :: splitAt sep rest
    else
      match splitAt sep rest with
      | [] => [[c]]
      | piece :: more => (c :: piece) :: more

/-- Cuts at the first `sep`, which belongs to neither side. -/
def cutAt? (sep : Char) : List Char → Option (List Char × List Char)
  | [] => none
  | c :: rest =>
    if c = sep then some ([], rest)
    else (cutAt? sep rest).map fun (before, after) => (c :: before, after)

/-- Removes `lead` from the front. -/
def afterLead? : List Char → List Char → Option (List Char)
  | [], cs => some cs
  | _ :: _, [] => none
  | p :: lead, c :: rest => if p = c then afterLead? lead rest else none

/-- Removes `tail` from the end. -/
def beforeTail? (tail cs : List Char) : Option (List Char) :=
  (afterLead? tail.reverse cs.reverse).map List.reverse

/-- A line without the CR that may stand before its end. -/
def dropCarriageReturn (line : List Char) : List Char :=
  (beforeTail? ['\r'] line).getD line

/-- Lines of a text, each ended by LF or CRLF; an unended last line counts
unless it is empty. -/
def lines (cs : List Char) : List (List Char) :=
  let pieces := splitAt '\n' cs
  let ended := pieces.dropLast.map dropCarriageReturn
  match pieces.getLast? with
  | some (c :: rest) => ended ++ [c :: rest]
  | _ => ended

/-- Maximal runs of characters that are not blank. -/
def words (cs : List Char) : List (List Char) :=
  go [] cs
where
  go (current : List Char) : List Char → List (List Char)
    | [] => if current.isEmpty then [] else [current.reverse]
    | c :: rest =>
      if isBlank c then
        if current.isEmpty then go [] rest else current.reverse :: go [] rest
      else go (c :: current) rest

/-- The text before the first occurrence of `sep`, or all of it. -/
def upTo (sep : Char) (cs : List Char) : List Char := cs.takeWhile fun c => c ≠ sep

theorem afterLead?_append (lead rest : List Char) : afterLead? lead (lead ++ rest) = some rest := by
  induction lead with
  | nil => cases rest <;> rfl
  | cons p lead ih => simp [afterLead?, ih]

theorem eq_append_of_afterLead? {lead cs rest : List Char} (h : afterLead? lead cs = some rest) :
    cs = lead ++ rest := by
  induction lead generalizing cs with
  | nil => cases cs <;> simp_all [afterLead?]
  | cons p lead ih =>
    cases cs with
    | nil => simp [afterLead?] at h
    | cons c cs =>
      simp only [afterLead?] at h
      split at h
      · next hpc => rw [hpc, ih h]; rfl
      · cases h

theorem beforeTail?_append (front tail : List Char) :
    beforeTail? tail (front ++ tail) = some front := by
  simp [beforeTail?, afterLead?_append]

theorem eq_append_of_beforeTail? {tail cs front : List Char}
    (h : beforeTail? tail cs = some front) : cs = front ++ tail := by
  simp only [beforeTail?, Option.map_eq_some_iff] at h
  obtain ⟨r, hr, rfl⟩ := h
  have := congrArg List.reverse (eq_append_of_afterLead? hr)
  simpa using this

end FigureData.Text
