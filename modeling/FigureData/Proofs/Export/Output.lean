/-
  Replacing the output folder: what a tree holds after a bundle has been written into it.

  The output folder lies in a folder that is there.  Whatever was in it goes, except that a path
  which leads through its inside and out again needs the folders there, and makes them anew.

  Proved:
  * `FileTree.HasFolder.writeFiles_frame`: writing files changes nothing else, whether or not it
    ends well.
  * `FileTree.HasFolder.writeFiles_ok_iff`, `FileTree.HasFolder.nodeAt?_writeFiles`: when all
    files are written, and that they have their contents then.
  * `Bundle.writeTo_cases`: a bundle is refused and nothing is changed, or the folder is made
    anew and the files are written.
-/
import FigureData.Export.Output
import FigureData.Proofs.FileTree.Renewal
import FigureData.Proofs.Outcome

namespace FigureData

open Outcome

/-! ## Refusals -/

/-- Codes of the operations that a file tree can refuse. -/
def refusalCodes : List String := ["remove_output", "create_output", "write"]

/-- Has the file tree refused an operation? -/
def Fault.isRefusal (fault : Fault) : Bool :=
  decide (fault.family = .io) && refusalCodes.contains fault.code

theorem Fault.isRefusal_refused {code : String} (h : code ∈ refusalCodes) (what path : String) :
    (Fault.refused code what path).isRefusal = true := by
  unfold Fault.isRefusal
  rw [Bool.and_eq_true, List.contains_iff_mem]
  exact ⟨rfl, h⟩

namespace FileTree

/-! ## One file -/

section WriteAt

variable {t t' : FileTree} {base name : String} {folder : Location} {content : Bytes}

theorem HasFolder.writeAt?_eq_some_iff (h : t.HasFolder base folder)
    (hname : Path.isName name = true) :
    (∃ t', t.writeAt? (Path.join base name) content = some t') ↔
      canName base name = true ∧ t.isFolder (name :: folder) = false := by
  unfold writeAt?
  rw [h.locate?_join hname]
  cases canName base name with
  | false => simp
  | true =>
    rw [if_pos rfl]
    simp only [writeFile?]
    split
    next hboth =>
      have hfree : t.isFolder (name :: folder) = false := by
        rw [Bool.eq_false_iff, ne_eq, isFolder_iff]
        exact hboth.2
      simp [hfree]
    next hnot =>
      have hfolder : t.isFolder (name :: folder) = true := by
        rw [isFolder_iff]
        by_contra hfree
        exact hnot ⟨isFolder_iff.1 h.isFolder, hfree⟩
      simp [hfolder]

/-- Writing a file changes what stands at its location, and no folder. -/
theorem HasFolder.writeAt?_spec (h : t.HasFolder base folder) (hname : Path.isName name = true)
    (hwrite : t.writeAt? (Path.join base name) content = some t') :
    (∀ l, t'.nodeAt? l = if l = name :: folder then some (.file content) else t.nodeAt? l) ∧
      ∀ l, t'.isFolder l = t.isFolder l := by
  obtain ⟨hcan, hfree⟩ := (h.writeAt?_eq_some_iff hname).1 ⟨t', hwrite⟩
  unfold writeAt? at hwrite
  rw [h.locate?_join hname, if_pos hcan] at hwrite
  have hnodes := nodeAt?_writeFile hwrite
  refine ⟨hnodes, fun l => ?_⟩
  rw [Bool.eq_iff_iff, isFolder_iff, isFolder_iff, hnodes]
  split
  next hl =>
    rw [hl, ← isFolder_iff, hfree]
    simp
  next => rfl

end WriteAt

/-! ## Several files -/

section WriteFiles

variable {t t' : FileTree} {base : String} {folder : Location} {files : List (String × Bytes)}

/-- Writing files changes no folder and nothing but the locations of the files, whether or not
it ends well. -/
theorem HasFolder.writeFiles_frame (h : t.HasFolder base folder)
    (hnames : ∀ f ∈ files, Path.isName f.1 = true) :
    (∀ l, (Bundle.writeFiles t base files).1.isFolder l = t.isFolder l) ∧
      ∀ l, (∀ f ∈ files, l ≠ f.1 :: folder) →
        (Bundle.writeFiles t base files).1.nodeAt? l = t.nodeAt? l := by
  induction files generalizing t with
  | nil => exact ⟨fun l => rfl, fun l _ => rfl⟩
  | cons f rest ih =>
    obtain ⟨name, content⟩ := f
    rw [List.forall_mem_cons] at hnames
    rw [Bundle.writeFiles]
    cases hwrite : t.writeAt? (Path.join base name) content with
    | none => exact ⟨fun l => rfl, fun l _ => rfl⟩
    | some t₁ =>
      obtain ⟨hnodes, hfolders⟩ := h.writeAt?_spec hnames.1 hwrite
      obtain ⟨hrest, hframe⟩ := ih (h.congr hfolders) hnames.2
      refine ⟨fun l => (hrest l).trans (hfolders l), fun l hl => ?_⟩
      rw [List.forall_mem_cons] at hl
      exact (hframe l hl.2).trans ((hnodes l).trans (if_neg hl.1))

/-- All files are written exactly when their names can be addressed and are not those of
folders. -/
theorem HasFolder.writeFiles_ok_iff (h : t.HasFolder base folder)
    (hnames : ∀ f ∈ files, Path.isName f.1 = true) {paths : List String} :
    (Bundle.writeFiles t base files).2 = .ok paths ↔
      paths = files.map (fun f => Path.join base f.1) ∧
        ∀ f ∈ files, canName base f.1 = true ∧ t.isFolder (f.1 :: folder) = false := by
  induction files generalizing t paths with
  | nil =>
    show .ok [] = Except.ok paths ↔ _
    rw [Except.ok.injEq, eq_comm]
    simp
  | cons f rest ih =>
    obtain ⟨name, content⟩ := f
    rw [List.forall_mem_cons] at hnames
    have hfirst : (∃ t', t.writeAt? (Path.join base name) content = some t') ↔
        canName base name = true ∧ t.isFolder (name :: folder) = false :=
      h.writeAt?_eq_some_iff hnames.1
    rw [Bundle.writeFiles, List.map_cons, List.forall_mem_cons, ← hfirst]
    cases hwrite : t.writeAt? (Path.join base name) content with
    | none => simp
    | some t₁ =>
      obtain ⟨-, hfolders⟩ := h.writeAt?_spec hnames.1 hwrite
      have hrest : ∀ paths, (Bundle.writeFiles t₁ base rest).2 = .ok paths ↔
          paths = rest.map (fun f => Path.join base f.1) ∧
            ∀ f ∈ rest, canName base f.1 = true ∧ t.isFolder (f.1 :: folder) = false := by
        intro paths
        rw [ih (h.congr hfolders) hnames.2]
        simp only [hfolders]
      constructor
      · intro hok
        obtain ⟨more, hmore, rfl⟩ := map_eq_ok hok
        obtain ⟨rfl, hall⟩ := (hrest more).1 hmore
        exact ⟨rfl, ⟨t₁, rfl⟩, hall⟩
      · rintro ⟨rfl, -, hall⟩
        show (Bundle.writeFiles t₁ base rest).2.map _ = _
        rw [(hrest _).2 ⟨rfl, hall⟩]
        rfl

/-- Files that have been written have their contents. -/
theorem HasFolder.nodeAt?_writeFiles (h : t.HasFolder base folder)
    (hnames : ∀ f ∈ files, Path.isName f.1 = true) (hnodup : (files.map Prod.fst).Nodup)
    {paths : List String} (hok : (Bundle.writeFiles t base files).2 = .ok paths) :
    ∀ f ∈ files, (Bundle.writeFiles t base files).1.nodeAt? (f.1 :: folder) = some (.file f.2) := by
  induction files generalizing t paths with
  | nil => simp
  | cons f rest ih =>
    obtain ⟨name, content⟩ := f
    rw [List.forall_mem_cons] at hnames
    rw [List.map_cons, List.nodup_cons] at hnodup
    rw [Bundle.writeFiles] at hok ⊢
    cases hwrite : t.writeAt? (Path.join base name) content with
    | none =>
      rw [hwrite] at hok
      cases hok
    | some t₁ =>
      rw [hwrite] at hok
      obtain ⟨more, hmore, -⟩ := map_eq_ok hok
      obtain ⟨hnodes, hfolders⟩ := h.writeAt?_spec hnames.1 hwrite
      have h₁ := h.congr hfolders
      obtain ⟨-, hframe⟩ := h₁.writeFiles_frame hnames.2
      rw [List.forall_mem_cons]
      refine ⟨?_, ih h₁ hnames.2 hnodup.2 hmore⟩
      -- the names that follow are others, so the file stays as it was written
      have hothers : ∀ f ∈ rest, name :: folder ≠ f.1 :: folder := by
        intro f hf he
        have hmem : f.1 ∈ rest.map Prod.fst := List.mem_map_of_mem hf
        rw [(List.cons.inj he).1] at hnodup
        exact hnodup.1 hmem
      exact (hframe _ hothers).trans ((hnodes _).trans (if_pos rfl))

theorem writeFiles_error {fault : Fault} (h : (Bundle.writeFiles t base files).2 = .error fault) :
    fault.isRefusal = true := by
  induction files generalizing t with
  | nil => cases h
  | cons f rest ih =>
    obtain ⟨name, content⟩ := f
    rw [Bundle.writeFiles] at h
    cases hwrite : t.writeAt? (Path.join base name) content with
    | none =>
      rw [hwrite] at h
      cases h
      exact Fault.isRefusal_refused (by decide) _ _
    | some t₁ =>
      rw [hwrite] at h
      exact ih (map_eq_error.1 h)

end WriteFiles

end FileTree

/-! ## Bundles -/

section Cases

variable {t : FileTree} {base name : String} {parent : Location}

theorem Bundle.writeAnew_eq (b : Bundle) {t₁ : FileTree} (h : t.HasFolder base parent)
    (hname : Path.isName name = true) (hcan : FileTree.canName base name = true)
    (hempty : t.Emptied t₁ (name :: parent)) :
    ∃ t', t.Renewed t' (Path.join base name) (name :: parent) ∧
      b.writeAnew (Path.join base name) t₁ = writeFiles t' (Path.join base name) b.files := by
  obtain ⟨t', hmake, hnew⟩ := h.makeFoldersAt_renews hname hcan hempty
  refine ⟨t', hnew, ?_⟩
  unfold writeAnew
  rw [hmake]

/-- Writing a bundle into a folder that a name addresses: the path cannot be followed, a file
stands there, or the folder is made anew and the files are written. -/
theorem Bundle.writeTo_cases (b : Bundle) (h : t.HasFolder base parent)
    (hname : Path.isName name = true) (hsize : name.utf8ByteSize ≤ Path.maxNameBytes) :
    let path := Path.join base name
    (FileTree.canName base name = false ∧
      b.writeTo path t =
        (t, .error (.refused "create_output" "folder cannot be created" path))) ∨
    (FileTree.canName base name = true ∧
      (∃ content, t.nodeAt? (name :: parent) = some (.file content)) ∧
      b.writeTo path t =
        (t, .error (.refused "remove_output" "folder cannot be removed" path))) ∨
    (FileTree.canName base name = true ∧
      (∀ content, t.nodeAt? (name :: parent) ≠ some (.file content)) ∧
      ∃ t', t.Renewed t' path (name :: parent) ∧
        b.writeTo path t = Bundle.writeFiles t' path b.files) := by
  intro path
  have hexists := h.existsAt_join hname
  unfold writeTo
  cases hcan : FileTree.canName base name with
  | false =>
    refine .inl ⟨rfl, ?_⟩
    have husable : Path.isUsable path = false := by
      rw [← Bool.not_eq_true]
      intro husable
      rw [FileTree.canName_iff.2 ⟨husable, hsize⟩] at hcan
      cases hcan
    rw [hexists, hcan]
    unfold writeAnew FileTree.makeFoldersAt
    rw [Path.isEmpty_join h.endsOpen hname, husable]
    rfl
  | true =>
    right
    rw [hexists, hcan, Bool.true_and]
    cases hnode : t.nodeAt? (name :: parent) with
    | none =>
      refine .inr ⟨rfl, fun _ => nofun, b.writeAnew_eq h hname hcan ?_⟩
      exact FileTree.emptied_of_missing hnode
    | some node =>
      cases node with
      | file content =>
        refine .inl ⟨rfl, ⟨content, rfl⟩, ?_⟩
        have hfree : t.isFolder (name :: parent) = false := by
          unfold FileTree.isFolder
          rw [hnode]
          rfl
        unfold FileTree.removeFolderAt
        rw [h.locate?_join hname, if_pos hcan]
        simp only [hfree]
        rfl
      | folder =>
        obtain ⟨t₁, hremove, hempty⟩ :=
          h.removeFolderAt_empties hname hcan (FileTree.isFolder_iff.2 hnode)
        refine .inr ⟨rfl, fun _ => nofun, ?_⟩
        rw [hremove]
        exact b.writeAnew_eq h hname hcan hempty

end Cases

/-- The folder at a path holds these files in place of what was in it.  Beside them stand only
folders that the path itself leads through, and nothing else of the tree has changed. -/
structure FileTree.Replaced (t t' : FileTree) (path : String) (folder : Location)
    (files : List (String × Bytes)) : Prop where
  contents : ∀ f ∈ files, t'.nodeAt? (f.1 :: folder) = some (.file f.2)
  beside : ∀ l, folder <:+ l → (∀ f ∈ files, l ≠ f.1 :: folder) →
    t'.nodeAt? l = if l ∈ Path.visited path then some .folder else none
  outside : ∀ l, ¬ folder <:+ l → t'.nodeAt? l = t.nodeAt? l

namespace Bundle

/-- The tree refuses to write, or all is well. -/
theorem isRefusal_of_writeTo {b : Bundle} {path : String} {t : FileTree} {fault : Fault}
    (h : (b.writeTo path t).2 = .error fault) : fault.isRefusal = true := by
  have hanew : ∀ t : FileTree, (b.writeAnew path t).2 = .error fault →
      fault.isRefusal = true := by
    intro t h
    unfold writeAnew at h
    split at h
    · exact FileTree.writeFiles_error h
    · cases h
      exact Fault.isRefusal_refused (by decide) _ _
  unfold writeTo at h
  split at h
  · split at h
    · exact hanew _ h
    · cases h
      exact Fault.isRefusal_refused (by decide) _ _
  · exact hanew _ h

section WriteTo

variable {b : Bundle} {t : FileTree} {base name : String} {parent : Location}
  (h : t.HasFolder base parent) (hname : Path.isName name = true)
  (hopen : Path.endsOpen name = true) (hsize : name.utf8ByteSize ≤ Path.maxNameBytes)
  (hfiles : ∀ f ∈ b.files, Path.isName f.1 = true)

include h hname hsize

/-- A folder made anew leaves the rest of the tree. -/
theorem outside_of_renewed {t' : FileTree}
    (hnew : t.Renewed t' (Path.join base name) (name :: parent)) :
    ∀ l, ¬ (name :: parent) <:+ l → t'.nodeAt? l = t.nodeAt? l := by
  intro l hl
  rw [hnew l, if_neg hl]
  split
  next hvisited =>
    rw [Path.visited_join h.endsOpen hname (FileTree.lead?_of_walk? h.walk) hsize,
      List.mem_append, List.mem_singleton] at hvisited
    rcases hvisited with hvisited | rfl
    · exact (FileTree.isFolder_iff.1 (h.visited_folders l hvisited)).symm
    · exact absurd (List.suffix_refl _) hl
  next => rfl

include hopen hfiles

/-- Whether or not a bundle can be written, nothing changes outside of its folder. -/
theorem outside_of_writeTo : ∀ l, ¬ (name :: parent) <:+ l →
    (b.writeTo (Path.join base name) t).1.nodeAt? l = t.nodeAt? l := by
  intro l hl
  rcases b.writeTo_cases h hname hsize with
    ⟨-, hwrite⟩ | ⟨-, -, hwrite⟩ | ⟨hcan, -, t', hnew, hwrite⟩
  · rw [hwrite]
  · rw [hwrite]
  · rw [hwrite]
    obtain ⟨-, hframe⟩ := (h.of_renewed hname hopen hcan hnew).writeFiles_frame hfiles
    rw [hframe l ?_]
    · exact outside_of_renewed h hname hsize hnew l hl
    · rintro f - rfl
      exact hl (List.suffix_cons f.1 _)

/-- A bundle is written exactly when its folder and its files can be addressed, no file has the
name of the folder, and the path leads through none of the locations of the files. -/
theorem writeTo_ok_iff {paths : List String} :
    (b.writeTo (Path.join base name) t).2 = .ok paths ↔
      paths = b.files.map (fun f => Path.join (Path.join base name) f.1) ∧
        FileTree.canName base name = true ∧
        (∀ content, t.nodeAt? (name :: parent) ≠ some (.file content)) ∧
        ∀ f ∈ b.files, FileTree.canName (Path.join base name) f.1 = true ∧
          f.1 :: name :: parent ∉ Path.visited (Path.join base name) := by
  rcases b.writeTo_cases h hname hsize with
    ⟨hcan, hwrite⟩ | ⟨hcan, ⟨content, hfile⟩, hwrite⟩ | ⟨hcan, hfree, t', hnew, hwrite⟩
  · rw [hwrite, hcan]
    simp
  · rw [hwrite]
    simp [hfile]
  · have hlocation : ∀ f : String × Bytes, t'.isFolder (f.1 :: name :: parent) = false ↔
        f.1 :: name :: parent ∉ Path.visited (Path.join base name) := by
      intro f
      rw [← Bool.not_eq_true, FileTree.isFolder_iff, hnew,
        if_pos (List.suffix_cons f.1 (name :: parent))]
      split <;> simp_all
    rw [hwrite, (h.of_renewed hname hopen hcan hnew).writeFiles_ok_iff hfiles]
    simp only [hlocation, hcan, true_and]
    exact and_congr_right fun _ => (and_iff_right hfree).symm

/-- Where a bundle is written, its folder is replaced by its files. -/
theorem replaced_of_writeTo (hnodup : (b.files.map Prod.fst).Nodup) {paths : List String}
    (hok : (b.writeTo (Path.join base name) t).2 = .ok paths) :
    t.Replaced (b.writeTo (Path.join base name) t).1 (Path.join base name) (name :: parent)
      b.files := by
  have houtside := outside_of_writeTo h hname hopen hsize hfiles
  rcases b.writeTo_cases h hname hsize with
    ⟨-, hwrite⟩ | ⟨-, -, hwrite⟩ | ⟨hcan, -, t', hnew, hwrite⟩
  · rw [hwrite] at hok
    cases hok
  · rw [hwrite] at hok
    cases hok
  · rw [hwrite] at hok houtside ⊢
    have hfolder := h.of_renewed hname hopen hcan hnew
    refine ⟨hfolder.nodeAt?_writeFiles hfiles hnodup hok, ?_, houtside⟩
    intro l hl hothers
    rw [(hfolder.writeFiles_frame hfiles).2 l hothers, hnew l, if_pos hl]

end WriteTo

end Bundle

/-! ## Replaced folders -/

namespace FileTree

/-- File names have no slashes, as in every file system. -/
def PlainNames (t : FileTree) : Prop :=
  ∀ name parent content, t.nodeAt? (name :: parent) = some (.file content) → '/' ∉ name.toList

/-- Does an entry have a name without slashes, if it is a file? -/
def isPlainEntry : Location × Node → Bool
  | (name :: _, .file _) => !name.toList.contains '/'
  | _ => true

theorem plainNames_iff {t : FileTree} :
    t.PlainNames ↔ ∀ x ∈ t.nodes.entries, isPlainEntry x = true := by
  constructor
  · rintro ht ⟨location, node⟩ hx
    cases location with
    | nil => rfl
    | cons name parent =>
      cases node with
      | folder => rfl
      | file content =>
        simpa [isPlainEntry] using ht name parent content (SortedMap.find?_of_mem hx)
  · intro h name parent content hnode
    simpa [isPlainEntry] using h (name :: parent, .file content) (mem_of_entryAt? hnode)

instance (t : FileTree) : Decidable t.PlainNames :=
  decidable_of_iff (∀ x ∈ t.nodes.entries, isPlainEntry x = true) plainNames_iff.symm

/-- The files are all that is in a folder. -/
structure HoldsExactly (t : FileTree) (folder : Location) (files : List (String × Bytes)) :
    Prop where
  contents : ∀ f ∈ files, t.nodeAt? (f.1 :: folder) = some (.file f.2)
  nothing : ∀ l, isInside folder l = true → (∀ f ∈ files, l ≠ f.1 :: folder) → t.nodeAt? l = none

section Replaced

variable {t t' : FileTree} {path : String} {folder : Location} {files : List (String × Bytes)}
  (hreplaced : t.Replaced t' path folder files)

include hreplaced

/-- Files with plain names leave the names of the tree plain. -/
theorem Replaced.plainNames (ht : t.PlainNames)
    (hfiles : ∀ f ∈ files, Path.isName f.1 = true) : t'.PlainNames := by
  intro name parent content hnode
  by_cases hsuffix : folder <:+ name :: parent
  · by_cases hothers : ∀ f ∈ files, name :: parent ≠ f.1 :: folder
    · rw [hreplaced.beside _ hsuffix hothers] at hnode
      split at hnode
      · cases hnode
      · cases hnode
    · obtain ⟨f, hf, he⟩ : ∃ f ∈ files, name :: parent = f.1 :: folder := by
        simpa using hothers
      rw [(List.cons.inj he).1]
      exact (Path.isName_iff.1 (hfiles f hf)).1
  · rw [hreplaced.outside _ hsuffix] at hnode
    exact ht name parent content hnode

variable (hfree : ∀ f ∈ files, f.1 :: folder ∉ Path.visited path)

include hfree

theorem Replaced.nodeAt?_visited {l : Location} (hl : l ∈ Path.visited path)
    (hsuffix : folder <:+ l) : t'.nodeAt? l = some .folder := by
  have hothers : ∀ f ∈ files, l ≠ f.1 :: folder := by
    rintro f hf rfl
    exact hfree f hf hl
  rw [hreplaced.beside l hsuffix hothers, if_pos hl]

/-- The files are all that is in the folder exactly when the path to it does not lead through
its inside. -/
theorem Replaced.holdsExactly_iff :
    t'.HoldsExactly folder files ↔ ∀ l ∈ Path.visited path, isInside folder l = false := by
  constructor
  · intro hexact l hl
    rw [Bool.eq_false_iff]
    intro hinside
    have hnone := hexact.nothing l hinside fun f hf he => hfree f hf (he ▸ hl)
    rw [hreplaced.nodeAt?_visited hfree hl (isInside_iff.1 hinside).1] at hnone
    cases hnone
  · intro hvisits
    refine ⟨hreplaced.contents, fun l hinside hothers => ?_⟩
    rw [hreplaced.beside l (isInside_iff.1 hinside).1 hothers, if_neg ?_]
    intro hl
    rw [hvisits l hl] at hinside
    cases hinside

end Replaced

/-- Where a folder has been replaced, the path to it leads through folders as before. -/
theorem Replaced.hasFolder {t t' : FileTree} {base name : String} {parent : Location}
    {files : List (String × Bytes)}
    (hreplaced : t.Replaced t' (Path.join base name) (name :: parent) files)
    (h : t.HasFolder base parent) (hname : Path.isName name = true)
    (hopen : Path.endsOpen name = true) (hcan : canName base name = true)
    (hfree : ∀ f ∈ files, f.1 :: name :: parent ∉ Path.visited (Path.join base name)) :
    t'.HasFolder base parent ∧ t'.HasFolder (Path.join base name) (name :: parent) := by
  have hsize := (canName_iff.1 hcan).2
  have hlead := lead?_of_walk? h.walk
  have hvisited := Path.visited_join h.endsOpen hname hlead hsize
  have hfolders : ∀ l ∈ Path.visited (Path.join base name), t'.isFolder l = true := by
    intro l hl
    rw [isFolder_iff]
    by_cases hsuffix : (name :: parent) <:+ l
    · exact hreplaced.nodeAt?_visited hfree hl hsuffix
    · rw [hreplaced.outside l hsuffix]
      rw [hvisited, List.mem_append, List.mem_singleton] at hl
      rcases hl with hl | rfl
      · exact isFolder_iff.1 (h.visited_folders l hl)
      · exact absurd (List.suffix_refl _) hsuffix
  have hbase : t'.HasFolder base parent := by
    refine .of_visited h.endsOpen hlead fun l hl => hfolders l ?_
    rw [hvisited]
    exact List.mem_append_left _ hl
  exact ⟨hbase, .of_visited (Path.endsOpen_join base hopen)
    (Path.lead?_join h.endsOpen hname hlead hsize) hfolders⟩

end FileTree

end FigureData
