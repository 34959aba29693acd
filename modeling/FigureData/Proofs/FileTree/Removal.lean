/-
  Trees from which files have been removed.

  Nothing lies below a file, so removing one leaves every other node, every path and, in its
  folder, all other files.

  Proved:
  * `FileTree.nodeAt?_remove`: the nodes after a removal.
  * `FileTree.filesIn_remove`: the files that are left in the folder.
  * `FileTree.filesIn_sorted`: files are listed in ascending order of their names.
  * `FileTree.removeFiles_spec`: the same for the removal of several files.
-/
import FigureData.FileTree.Path
import FigureData.Proofs.Maps
import Mathlib.Data.List.Basic

namespace FigureData.FileTree

open Std

/-! ## One file -/

section Remove

variable {t : FileTree} {name : String} {parent : Location}

/-- Nothing lies below a location that is no folder. -/
theorem nodeAt?_eq_none_of_suffix (h : t.isFolder (name :: parent) = false) {location : Location}
    (hsuffix : (name :: parent) <:+ location) (hne : location ≠ name :: parent) :
    t.nodeAt? location = none := by
  induction location with
  | nil => exact absurd hsuffix.length_le (by simp)
  | cons c rest ih =>
    rcases List.suffix_cons_iff.1 hsuffix with he | hrest
    · exact absurd he.symm hne
    rw [← Option.not_isSome_iff_eq_none]
    intro hnode
    have hparent : t.nodeAt? rest = some .folder := t.closed c rest hnode
    by_cases he : rest = name :: parent
    · rw [he] at hparent
      rw [isFolder, hparent] at h
      exact absurd h (by decide)
    · rw [ih hrest he] at hparent
      cases hparent

/-- Removing a file leaves every other node. -/
theorem nodeAt?_remove (h : t.isFolder (name :: parent) = false) (location : Location) :
    (t.remove name parent).nodeAt? location =
      if location = name :: parent then none else t.nodeAt? location := by
  cases location with
  | nil => rfl
  | cons c rest =>
    show (t.nodes.filterKeys _).find? (c :: rest) = _
    rw [SortedMap.find?_filterKeys]
    by_cases hsuffix : (name :: parent) <:+ c :: rest
    · rw [if_neg (by simpa using hsuffix)]
      split
      next => rfl
      next hne => exact (nodeAt?_eq_none_of_suffix h hsuffix hne).symm
    · rw [if_pos (by simpa using hsuffix)]
      have hne : c :: rest ≠ name :: parent := fun he => hsuffix (he ▸ List.suffix_refl _)
      rw [if_neg hne]
      rfl

theorem isFolder_remove (h : t.isFolder (name :: parent) = false) (location : Location) :
    (t.remove name parent).isFolder location = t.isFolder location := by
  unfold isFolder
  rw [nodeAt?_remove h]
  split
  next he =>
    subst he
    exact h.symm
  next => rfl

/-- The files that are left in the folder. -/
theorem filesIn_remove (t : FileTree) (name : String) (folder : Location) :
    (t.remove name folder).filesIn folder =
      (t.filesIn folder).filter fun f => decide (f.1 ≠ name) := by
  unfold filesIn
  show ((t.nodes.entries.filter _).filterMap _) = _
  rw [List.filterMap_filter, List.filter_filterMap]
  apply List.filterMap_congr
  rintro ⟨location, node⟩ -
  cases location with
  | nil => split <;> rfl
  | cons c rest =>
    cases node with
    | folder => split <;> rfl
    | file content =>
      by_cases hrest : rest = folder
      · subst hrest
        have hsuffix : (name :: rest) <:+ c :: rest ↔ c = name := by
          rw [List.suffix_cons_iff, List.cons.injEq]
          constructor
          · rintro (⟨he, -⟩ | hs)
            · exact he.symm
            · exact absurd hs.length_le (by simp)
          · intro he
            exact .inl ⟨he.symm, rfl⟩
        have hfile : fileIn? rest (c :: rest, .file content) = some (c, content) := if_pos rfl
        rw [hfile, Option.filter_some]
        simp only [hsuffix, Bool.not_eq_true', decide_eq_false_iff_not, decide_eq_true_eq, ne_eq]
      · have hfile : fileIn? folder (c :: rest, .file content) = none := if_neg hrest
        rw [hfile]
        split <;> rfl

end Remove

/-! ## Files of a folder -/

theorem lt_of_compare_cons {a b : String} {folder : Location}
    (h : compare (a :: folder) (b :: folder) = .lt) : a < b := by
  have hrefl : compare folder folder = .eq := ReflCmp.compare_self
  rw [List.compare_cons_cons, hrefl, Ordering.then_eq] at h
  exact compareOfLessAndEq_eq_lt.1 h

theorem eq_of_fileIn? {folder : Location} {e : Location × Node} {f : String × Bytes}
    (h : fileIn? folder e = some f) : e = (f.1 :: folder, .file f.2) := by
  unfold fileIn? at h
  split at h
  · split at h
    next hparent =>
      cases h
      rw [hparent]
    next => cases h
  · cases h

/-- Files are listed in ascending order of their names. -/
theorem filesIn_sorted (t : FileTree) (folder : Location) :
    (t.filesIn folder).Pairwise fun a b => a.1 < b.1 := by
  unfold filesIn
  rw [List.pairwise_filterMap]
  refine t.nodes.sorted.imp ?_
  intro a b hlt x hx y hy
  rw [eq_of_fileIn? hx, eq_of_fileIn? hy] at hlt
  exact lt_of_compare_cons hlt

/-- What is listed as a file of a folder is no folder. -/
theorem isFolder_of_mem_filesIn {t : FileTree} {folder : Location} {f : String × Bytes}
    (h : f ∈ t.filesIn folder) : t.isFolder (f.1 :: folder) = false := by
  obtain ⟨e, he, hf⟩ := List.mem_filterMap.1 h
  rw [eq_of_fileIn? hf] at he
  have hnode : t.nodeAt? (f.1 :: folder) = some (.file f.2) := SortedMap.find?_of_mem he
  unfold isFolder
  rw [hnode]
  rfl

/-! ## Several files -/

/-- Removes files of a folder by their names. -/
def removeFiles (t : FileTree) (folder : Location) (names : List String) : FileTree :=
  names.foldl (fun t name => t.remove name folder) t

/-- Removing files leaves all folders and, in theirs, all other files. -/
theorem removeFiles_spec {t : FileTree} {folder : Location} {names : List String}
    (h : ∀ name ∈ names, t.isFolder (name :: folder) = false) :
    (∀ location, (t.removeFiles folder names).isFolder location = t.isFolder location) ∧
      (t.removeFiles folder names).filesIn folder =
        (t.filesIn folder).filter fun f => decide (f.1 ∉ names) := by
  induction names generalizing t with
  | nil =>
    have hall : ∀ f ∈ t.filesIn folder, decide (f.1 ∉ ([] : List String)) = true := by simp
    exact ⟨fun location => rfl, (List.filter_eq_self.2 hall).symm⟩
  | cons name rest ih =>
    rw [List.forall_mem_cons] at h
    have hfolder := isFolder_remove h.1
    obtain ⟨hrest, hfiles⟩ := ih (t := t.remove name folder) fun other ho => by
      rw [hfolder]
      exact h.2 other ho
    refine ⟨fun location => (hrest location).trans (hfolder location), ?_⟩
    show ((t.remove name folder).removeFiles folder rest).filesIn folder = _
    rw [hfiles, filesIn_remove, List.filter_filter]
    apply List.filter_congr
    intro f hf
    rw [Bool.eq_iff_iff, Bool.and_eq_true, decide_eq_true_eq, decide_eq_true_eq, decide_eq_true_eq,
      List.mem_cons, not_or]
    exact and_comm

/-! ## Paths -/

section Paths

variable {t t' : FileTree} (h : ∀ location, t'.isFolder location = t.isFolder location)

include h

/-- Paths are followed through folders alone. -/
theorem walk?_congr (components : List String) (location : Location) :
    t'.walk? location components = t.walk? location components := by
  induction components generalizing location with
  | nil => rfl
  | cons component rest ih =>
    unfold walk?
    rw [h]
    refine if_congr Iff.rfl ?_ rfl
    exact congrArg _ (funext ih)

theorem locate?_congr (path : String) : t'.locate? path = t.locate? path := by
  unfold locate?
  rw [walk?_congr h]

end Paths

end FigureData.FileTree
