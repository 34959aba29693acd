/-
  What stands where after folders are made, emptied or removed and files are written.

  Every change is told by what stands at each location afterwards, since a path with `..` in it
  may visit locations all over the tree.

  Proved:
  * `FileTree.nodeAt?_clear`, `nodeAt?_removeAll`, `nodeAt?_makeFolder`, `nodeAt?_writeFile`:
    the nodes after a change.
  * `FileTree.makeFolders_spec`: where no file is in the way, the locations visited become folders.
  * `FileTree.filesIn_congr`: the files of a folder are determined by the nodes in it.
-/
import FigureData.Proofs.FileTree.Paths

namespace FigureData.FileTree

variable {t t' : FileTree}

theorem isFolder_iff {location : Location} :
    t.isFolder location = true ↔ t.nodeAt? location = some .folder :=
  decide_eq_true_iff

/-- Where something stands, its parent is a folder. -/
theorem isFolder_parent {name : String} {parent : Location} {node : Node}
    (h : t.nodeAt? (name :: parent) = some node) : t.isFolder parent = true := by
  refine isFolder_iff.2 (t.closed name parent ?_)
  have hfind : t.nodes.find? (name :: parent) = some node := h
  rw [hfind]
  rfl

/-! ## Nodes after a change -/

theorem nodeAt?_insert {name : String} {parent : Location} {node : Node}
    (hnodes : t'.nodes = t.nodes.insert (name :: parent) node) (location : Location) :
    t'.nodeAt? location =
      if location = name :: parent then some node else t.nodeAt? location := by
  unfold nodeAt?
  rw [hnodes]
  split
  next h =>
    rw [h]
    exact SortedMap.find?_insert_self t.nodes _ node
  next h => exact nodeIn?_insert node h

theorem nodeAt?_makeFolder {name : String} {parent : Location}
    (h : t.makeFolder? name parent = some t') (location : Location) :
    t'.nodeAt? location =
      if location = name :: parent then some .folder else t.nodeAt? location := by
  unfold makeFolder? at h
  split at h
  · cases h
    exact nodeAt?_insert rfl location
  · cases h

theorem nodeAt?_writeFile {name : String} {parent : Location} {content : Bytes}
    (h : t.writeFile? name parent content = some t') (location : Location) :
    t'.nodeAt? location =
      if location = name :: parent then some (.file content) else t.nodeAt? location := by
  unfold writeFile? at h
  split at h
  · cases h
    exact nodeAt?_insert rfl location
  · cases h

/-- The working folder cannot be removed. -/
theorem nodeAt?_filterKeys {p : Location → Bool} (hp : p [] = true)
    (hnodes : t'.nodes = t.nodes.filterKeys p) (location : Location) :
    t'.nodeAt? location = if p location then t.nodeAt? location else none := by
  cases location with
  | nil =>
    rw [if_pos hp]
    rfl
  | cons name parent =>
    show t'.nodes.find? (name :: parent) = _
    rw [hnodes, SortedMap.find?_filterKeys]
    rfl

theorem isInside_iff {folder l : Location} :
    isInside folder l = true ↔ folder <:+ l ∧ l ≠ folder := by
  unfold isInside
  rw [Bool.and_eq_true, decide_eq_true_eq, decide_eq_true_eq]

theorem isInside_nil (folder : Location) : isInside folder [] = false := by
  unfold isInside
  cases folder with
  | nil => rfl
  | cons name parent => simp

theorem nodeAt?_clear (t : FileTree) (folder location : Location) :
    (t.clear folder).nodeAt? location =
      if isInside folder location then none else t.nodeAt? location := by
  rw [nodeAt?_filterKeys (p := fun l => !isInside folder l) (by rw [isInside_nil]; rfl) rfl]
  cases isInside folder location <;> rfl

/-- A removal takes what stands there and everything below. -/
theorem nodeAt?_removeAll (t : FileTree) (name : String) (parent location : Location) :
    (t.remove name parent).nodeAt? location =
      if (name :: parent) <:+ location then none else t.nodeAt? location := by
  rw [nodeAt?_filterKeys (p := fun l => !decide ((name :: parent) <:+ l)) (by simp) rfl]
  by_cases h : (name :: parent) <:+ location
  · simp [h]
  · simp [h]

/-! ## Making folders -/

/-- A step from a folder leads into it or to another folder. -/
theorem step?_cases {location next : Location} {component : String}
    (hfolder : t.isFolder location = true) (h : Path.step? location component = some next) :
    t.isFolder next = true ∨ next = component :: location := by
  unfold Path.step? at h
  split at h
  · cases h
    exact .inl hfolder
  split at h
  · split at h
    · cases h
    · cases h
      exact .inl hfolder
    · cases h
      exact .inl (isFolder_parent (isFolder_iff.1 hfolder))
  split at h
  · cases h
    exact .inr rfl
  · cases h

theorem provideFolder?_spec {location next : Location} {component : String}
    (hfolder : t.isFolder location = true) (hstep : Path.step? location component = some next)
    (hfree : t.nodeAt? next = none ∨ t.nodeAt? next = some .folder) :
    ∃ t', t.provideFolder? next = some t' ∧
      ∀ l, t'.nodeAt? l = if l = next then some .folder else t.nodeAt? l := by
  unfold provideFolder?
  by_cases hnext : t.isFolder next = true
  · rw [if_pos hnext]
    refine ⟨t, rfl, fun l => ?_⟩
    split
    next h =>
      rw [h]
      exact isFolder_iff.1 hnext
    next => rfl
  · rw [if_neg hnext]
    rcases step?_cases hfolder hstep with h | rfl
    · exact absurd h hnext
    have hnone : t.nodeAt? (component :: location) = none := by
      rcases hfree with h | h
      · exact h
      · exact absurd (isFolder_iff.2 h) hnext
    have hmake : ∃ t', t.makeFolder? component location = some t' := by
      unfold makeFolder?
      rw [dif_pos ⟨isFolder_iff.1 hfolder, hnone⟩]
      exact ⟨_, rfl⟩
    obtain ⟨t', ht'⟩ := hmake
    exact ⟨t', ht', nodeAt?_makeFolder ht'⟩

/-- Where no file is in the way, the locations visited become folders and all others stay. -/
theorem makeFolders_spec {location last : Location} {components : List String}
    (hfolder : t.isFolder location = true) (hlead : Path.lead? location components = some last)
    (hfree : ∀ l ∈ Path.visits location components,
      t.nodeAt? l = none ∨ t.nodeAt? l = some .folder) :
    ∃ t', t.makeFolders location components = (t', true) ∧ ∀ l, t'.nodeAt? l =
      if l ∈ Path.visits location components then some .folder else t.nodeAt? l := by
  induction components generalizing location t with
  | nil => exact ⟨t, rfl, fun l => rfl⟩
  | cons component rest ih =>
    obtain ⟨next, hnext, hlead⟩ := Option.bind_eq_some_iff.1 hlead
    rw [Path.visits, hnext, List.forall_mem_cons] at hfree
    obtain ⟨t₁, hprovide, hnodes⟩ := provideFolder?_spec hfolder hnext hfree.1
    have hnextFolder : t₁.isFolder next = true := by
      rw [isFolder_iff, hnodes, if_pos rfl]
    have hfree' : ∀ l ∈ Path.visits next rest,
        t₁.nodeAt? l = none ∨ t₁.nodeAt? l = some .folder := by
      intro l hl
      rw [hnodes]
      split
      · exact .inr rfl
      · exact hfree.2 l hl
    obtain ⟨t', hmake, hrest⟩ := ih hnextFolder hlead hfree'
    refine ⟨t', ?_, fun l => ?_⟩
    · rw [makeFolders, hnext]
      simp only [hprovide]
      exact hmake
    · rw [hrest, hnodes, Path.visits, hnext]
      simp only [List.mem_cons]
      by_cases h : l = next
      · simp [h]
      · simp [h]

/-! ## Files of a folder -/

theorem mem_filesIn_iff {folder : Location} {f : String × Bytes} :
    f ∈ t.filesIn folder ↔ t.nodeAt? (f.1 :: folder) = some (.file f.2) := by
  unfold filesIn
  rw [List.mem_filterMap]
  constructor
  · rintro ⟨e, he, hf⟩
    rw [eq_of_fileIn? hf] at he
    exact SortedMap.find?_of_mem he
  · intro h
    exact ⟨(f.1 :: folder, .file f.2), mem_of_entryAt? h, if_pos rfl⟩

/-- The files of a folder are determined by the nodes in it. -/
theorem filesIn_congr {folder : Location}
    (h : ∀ name content, t'.nodeAt? (name :: folder) = some (.file content) ↔
      t.nodeAt? (name :: folder) = some (.file content)) :
    t'.filesIn folder = t.filesIn folder := by
  have hnodup : ∀ t : FileTree, (t.filesIn folder).Nodup := fun t =>
    (t.filesIn_sorted folder).imp fun hlt he => absurd (he ▸ hlt) (String.lt_irrefl _)
  have hperm : (t'.filesIn folder).Perm (t.filesIn folder) := by
    refine (List.perm_ext_iff_of_nodup (hnodup t') (hnodup t)).2 fun f => ?_
    rw [mem_filesIn_iff, mem_filesIn_iff]
    exact h f.1 f.2
  refine hperm.eq_of_pairwise ?_ (t'.filesIn_sorted folder) (t.filesIn_sorted folder)
  intro a b _ _ hab hba
  exact absurd hab (String.lt_asymm hba)

end FigureData.FileTree
