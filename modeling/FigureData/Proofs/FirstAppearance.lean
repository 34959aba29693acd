/-
  Lists without repetitions, in order of first appearance.

  A map that remembers the order of insertion, entities found one after the other and columns
  that the data call for all list what they have met in that order.

  Proved:
  * `eraseDups_concat`, `nodup_eraseDups`, `eraseDups_of_nodup`: what one more item adds.
  * `appendNew_eraseDups`: appending what is new keeps to the order of first appearance.
  * `OrderedMap.keys_insertAll`, `keys_enterAll`: so do the keys of a map after several writes,
    and the identifiers of the entities after several contributions.
-/
import FigureData.Dataset.Build
import FigureData.Proofs.Extraction.Merging
import Mathlib.Data.List.Induction
import Mathlib.Data.List.Nodup

namespace FigureData

open Extraction

/-! ## Repetitions -/

section Repetitions

variable {α : Type} [DecidableEq α]

/-- One more item comes last unless it has appeared. -/
theorem eraseDups_concat (xs : List α) (a : α) :
    (xs ++ [a]).eraseDups = if a ∈ xs then xs.eraseDups else xs.eraseDups ++ [a] := by
  rw [List.eraseDups_append]
  by_cases h : a ∈ xs <;> simp [h, List.removeAll, List.eraseDups_cons]

theorem nodup_eraseDups (xs : List α) : xs.eraseDups.Nodup := by
  induction xs using List.reverseRecOn with
  | nil => exact List.nodup_nil
  | append_singleton xs a ih =>
    rw [eraseDups_concat]
    split_ifs with h
    · exact ih
    · rw [← List.concat_eq_append]
      exact ih.concat (mt List.mem_eraseDups.1 h)

theorem eraseDups_of_nodup {xs : List α} (h : xs.Nodup) : xs.eraseDups = xs := by
  induction xs using List.reverseRecOn with
  | nil => rfl
  | append_singleton xs a ih =>
    rw [← List.concat_eq_append, List.nodup_concat] at h
    rw [eraseDups_concat, if_neg h.1, ih h.2]

end Repetitions

/-- Appending what is new keeps to the order of first appearance. -/
theorem appendNew_eraseDups (labels more : List String) :
    appendNew labels.eraseDups more = (labels ++ more).eraseDups := by
  induction more generalizing labels with
  | nil => rw [List.append_nil]; rfl
  | cons label rest ih =>
    have hstep : (if label ∈ labels.eraseDups then labels.eraseDups
        else labels.eraseDups ++ [label]) = (labels ++ [label]).eraseDups := by
      rw [eraseDups_concat]
      simp only [List.mem_eraseDups]
    show appendNew (if label ∈ labels.eraseDups then labels.eraseDups
      else labels.eraseDups ++ [label]) rest = _
    rw [hstep, ih, List.append_assoc, List.singleton_append]

theorem appendNew_of_nodup {labels : List String} (h : labels.Nodup) (more : List String) :
    appendNew labels more = (labels ++ more).eraseDups := by
  rw [← appendNew_eraseDups, eraseDups_of_nodup h]

/-! ## Keys -/

namespace OrderedMap

variable {α : Type}

/-- The keys are those that were there and those written, in order of first appearance. -/
theorem keys_insertAll (m : OrderedMap α) (pairs : List (String × α)) :
    (m.insertAll pairs).keys = (m.keys ++ pairs.map Prod.fst).eraseDups := by
  have hfold : (m.insertAll pairs).keys = appendNew m.keys (pairs.map Prod.fst) := by
    induction pairs generalizing m with
    | nil => rfl
    | cons head rest ih =>
      show ((m.insert head.1 head.2).insertAll rest).keys = _
      rw [ih, keys_insert]
      rfl
  exact hfold.trans (appendNew_of_nodup m.nodup _)

end OrderedMap

/-- The identifiers are those that were there and those contributed, in order of first
appearance. -/
theorem Extraction.keys_enterAll (contributions : List Contribution) (m : OrderedMap Entity) :
    (enterAll contributions m).keys = (m.keys ++ contributions.map Contribution.id).eraseDups := by
  have hfold : (enterAll contributions m).keys =
      appendNew m.keys (contributions.map Contribution.id) := by
    induction contributions generalizing m with
    | nil => rfl
    | cons c rest ih =>
      rw [enterAll_cons, ih]
      unfold Contribution.enter
      rw [OrderedMap.keys_insert]
      rfl
  exact hfold.trans (appendNew_of_nodup m.nodup _)

end FigureData
