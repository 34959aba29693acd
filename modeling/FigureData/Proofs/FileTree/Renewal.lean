/-
  Replacing a folder: it is removed with everything in it and made anew.

  Its path may lead through its own inside and out again.  Then removal leaves the folder behind,
  since nothing can be reached through the path any more, and creation makes the folders on the
  path anew.

  Proved:
  * `HasFolder.removeFolderAt_empties`: removal takes the content of a folder and nothing else.
  * `HasFolder.makeFoldersAt_renews`: creation makes folders of the locations that the path visits.
  * `HasFolder.of_renewed`: after that the path leads to the folder.
-/
import FigureData.Proofs.FileTree.Folders

namespace FigureData.FileTree

variable {t : FileTree} {base name : String} {parent : Location}

/-! ## Removal -/

/-- The content of a folder is gone, if not the folder itself, and the rest of the tree is as
before. -/
structure Emptied (t t' : FileTree) (folder : Location) : Prop where
  outside : ∀ l, ¬ folder <:+ l → t'.nodeAt? l = t.nodeAt? l
  self : t'.nodeAt? folder = none ∨ t'.nodeAt? folder = some .folder
  inside : ∀ l, isInside folder l = true → t'.nodeAt? l = none

theorem emptied_of_missing (h : t.nodeAt? (name :: parent) = none) :
    t.Emptied t (name :: parent) where
  outside _ _ := rfl
  self := .inl h
  inside l hl := by
    have hfree : t.isFolder (name :: parent) = false := by
      unfold isFolder
      rw [h]
      rfl
    obtain ⟨hsuffix, hne⟩ := isInside_iff.1 hl
    exact nodeAt?_eq_none_of_suffix hfree hsuffix hne

theorem emptied_clear {folder : Location} (h : t.isFolder folder = true) :
    t.Emptied (t.clear folder) folder where
  outside l hl := by
    rw [nodeAt?_clear, if_neg fun hinside => hl (isInside_iff.1 hinside).1]
  self := by
    rw [nodeAt?_clear, if_neg fun hinside => (isInside_iff.1 hinside).2 rfl]
    exact .inr (isFolder_iff.1 h)
  inside l hl := by
    rw [nodeAt?_clear, if_pos hl]

theorem Emptied.remove {t' : FileTree} (h : t.Emptied t' (name :: parent)) :
    t.Emptied (t'.remove name parent) (name :: parent) where
  outside l hl := by
    rw [nodeAt?_removeAll, if_neg hl]
    exact h.outside l hl
  self := by
    rw [nodeAt?_removeAll, if_pos (List.suffix_refl _)]
    exact .inl rfl
  inside l hl := by
    rw [nodeAt?_removeAll, if_pos (isInside_iff.1 hl).1]

/-- Nothing is in the way of removing a folder that can be addressed. -/
theorem HasFolder.removeFolderAt_empties (h : t.HasFolder base parent)
    (hname : Path.isName name = true) (hcan : canName base name = true)
    (hfolder : t.isFolder (name :: parent) = true) :
    ∃ t', t.removeFolderAt (Path.join base name) = (t', true) ∧
      t.Emptied t' (name :: parent) := by
  have hcleared := emptied_clear hfolder
  obtain ⟨-, hidle, hout⟩ := Path.isName_iff.1 hname
  have hne : name ≠ "" := by
    rintro rfl
    cases hidle
  have hdots : ¬ (name = "." ∨ name = "..") := by
    rintro (rfl | rfl)
    · cases hidle
    · exact hout rfl
  unfold removeFolderAt
  rw [h.locate?_join hname, if_pos hcan]
  simp only [hfolder, if_true]
  unfold removeEmptyAt?
  rw [Path.dropWhile_components_join h.endsOpen hname (decide_eq_false hne)]
  simp only [List.reverse_reverse, Path.start_join h.endsOpen hname]
  cases hwalk : (t.clear (name :: parent)).walk? (Path.start base) (Path.components base) with
  | none =>
    -- the path leads through the inside, so nothing is left to remove
    exact ⟨t.clear (name :: parent), rfl, hcleared⟩
  | some last =>
    have hlast : last = parent := by
      have hlead := lead?_of_walk? hwalk
      rw [lead?_of_walk? h.walk] at hlead
      exact (Option.some.inj hlead).symm
    have hnot : ¬ (name :: parent) <:+ parent := fun hs => Nat.not_succ_le_self _ hs.length_le
    have hparent : (t.clear (name :: parent)).isFolder parent = true := by
      rw [isFolder_iff, hcleared.outside parent hnot]
      exact isFolder_iff.1 h.isFolder
    refine ⟨(t.clear (name :: parent)).remove name parent, ?_, hcleared.remove⟩
    rw [hlast, Option.filter_some, if_pos hparent]
    simp only [if_neg hdots]

/-! ## Creation -/

/-- A folder has been made anew at a path: what was in it is gone, and the locations that the
path visits are folders. -/
def Renewed (t t' : FileTree) (path : String) (folder : Location) : Prop :=
  ∀ l, t'.nodeAt? l =
    if l ∈ Path.visited path then some .folder
    else if folder <:+ l then none
    else t.nodeAt? l

/-- The path begins outside of every folder with a name. -/
theorem not_suffix_start (hname : Path.isName name = true) (parent : Location) (path : String) :
    ¬ (name :: parent) <:+ Path.start path := by
  have hslash : name ≠ "/" := by
    rintro rfl
    exact absurd hname (by decide)
  unfold Path.start
  split
  · rw [List.suffix_cons_iff]
    rintro (he | hs)
    · exact hslash (List.cons.inj he).1
    · exact absurd hs.length_le (by simp)
  · intro hs
    exact absurd hs.length_le (by simp)

theorem makeFoldersAt_eq (t : FileTree) (hbase : Path.endsOpen base = true)
    (hname : Path.isName name = true) (husable : Path.isUsable (Path.join base name) = true) :
    t.makeFoldersAt (Path.join base name) =
      t.makeFolders (Path.start (Path.join base name)) (Path.components (Path.join base name)) := by
  have hidle := (Path.isName_iff.1 hname).2.1
  have hnamed : ((Path.components (Path.join base name)).reverse.dropWhile Path.isIdle).reverse =
      Path.components (Path.join base name) := by
    rw [Path.dropWhile_components_join hbase hname hidle, List.reverse_cons, List.reverse_reverse,
      Path.components_join hbase hname]
  unfold makeFoldersAt
  rw [Path.isEmpty_join hbase hname, husable]
  simp only [hnamed, List.drop_length]
  rfl

/-- Creating a folder in a tree from which its content has been removed. -/
theorem HasFolder.makeFoldersAt_renews {t₁ : FileTree} (h : t.HasFolder base parent)
    (hname : Path.isName name = true) (hcan : canName base name = true)
    (hempty : t.Emptied t₁ (name :: parent)) :
    ∃ t', t₁.makeFoldersAt (Path.join base name) = (t', true) ∧
      t.Renewed t' (Path.join base name) (name :: parent) := by
  obtain ⟨husable, hsize⟩ := canName_iff.1 hcan
  have hlead := lead?_of_walk? h.walk
  have hvisited := Path.visited_join h.endsOpen hname hlead hsize
  have hfree : ∀ l ∈ Path.visited (Path.join base name),
      t₁.nodeAt? l = none ∨ t₁.nodeAt? l = some .folder := by
    intro l hl
    rw [hvisited, List.mem_append, List.mem_singleton] at hl
    by_cases he : l = name :: parent
    · rw [he]
      exact hempty.self
    have hl : l ∈ Path.visited base := hl.resolve_right he
    by_cases hsuffix : (name :: parent) <:+ l
    · exact .inl (hempty.inside l (isInside_iff.2 ⟨hsuffix, he⟩))
    · rw [hempty.outside l hsuffix]
      exact .inr (isFolder_iff.1 (h.visited_folders l hl))
  have hstart : t₁.isFolder (Path.start (Path.join base name)) = true := by
    rw [Path.start_join h.endsOpen hname, isFolder_iff,
      hempty.outside _ (not_suffix_start hname parent base)]
    exact isFolder_iff.1 (h.visited_folders _ (List.mem_cons_self ..))
  obtain ⟨t', hmake, hnodes⟩ := makeFolders_spec hstart
    (Path.lead?_join h.endsOpen hname hlead hsize) fun l hl =>
      hfree l (List.mem_cons_of_mem _ hl)
  refine ⟨t', (t₁.makeFoldersAt_eq h.endsOpen hname husable).trans hmake, fun l => ?_⟩
  rw [hnodes]
  by_cases hl : l ∈ Path.visited (Path.join base name)
  · rw [if_pos hl]
    rcases List.mem_cons.1 hl with rfl | hl
    · rw [isFolder_iff.1 hstart, ite_self]
    · rw [if_pos hl]
  · rw [if_neg fun hmem => hl (List.mem_cons_of_mem _ hmem), if_neg hl]
    split
    next hsuffix =>
      refine hempty.inside l (isInside_iff.2 ⟨hsuffix, ?_⟩)
      rintro rfl
      exact hl (by simp [hvisited])
    next hsuffix => exact hempty.outside l hsuffix

/-- A folder made anew is there, with the path to it. -/
theorem HasFolder.of_renewed {t' : FileTree} (h : t.HasFolder base parent)
    (hname : Path.isName name = true) (hopen : Path.endsOpen name = true)
    (hcan : canName base name = true)
    (hnew : t.Renewed t' (Path.join base name) (name :: parent)) :
    t'.HasFolder (Path.join base name) (name :: parent) := by
  have hlead := Path.lead?_join h.endsOpen hname (lead?_of_walk? h.walk) (canName_iff.1 hcan).2
  refine .of_visited (Path.endsOpen_join base hopen) hlead ?_
  intro l hl
  rw [isFolder_iff, hnew l, if_pos hl]

end FigureData.FileTree
