/-
  Where paths lead, as far as their components tell.

  A path that can be followed leads to the same location in every tree.  On its way it visits
  locations, which have to be folders; with `..` in it, they need not lie around its end.

  Proved:
  * `Path.components_join`: a name that continues a path is its last component.
  * `FileTree.walk?_of_folders`, `FileTree.folders_of_walk?`: a path leads to a folder exactly
    through folders.
  * `FileTree.HasFolder.locate?_join`: where a name leads that continues the path to a folder.
-/
import FigureData.FileTree.Path
import FigureData.Proofs.FileTree.Removal
import FigureData.Proofs.Text.Split

namespace FigureData

namespace Path

/-! ## Names -/

/-- Is a text the name of a file or folder, as a component of a path? -/
def isName (name : String) : Bool :=
  !name.toList.contains '/' && !isIdle name && decide (name ≠ "..")

/-- Does a path end within a component, so that a slash has to follow? -/
def endsOpen (path : String) : Bool := path.toList.getLast?.any fun c => decide (c ≠ '/')

section Join

variable {base name : String}

theorem endsOpen_iff {path : String} :
    endsOpen path = true ↔ ∃ c, path.toList.getLast? = some c ∧ c ≠ '/' := by
  unfold endsOpen
  simp only [Option.any_eq_true, decide_eq_true_eq]

theorem join_eq (hbase : endsOpen base = true) (hname : isAbsolute name = false) :
    join base name = base ++ "/" ++ name := by
  obtain ⟨c, hlast, hc⟩ := endsOpen_iff.1 hbase
  have hempty : base.isEmpty = false := by
    rw [Bool.eq_false_iff]
    intro h
    rw [String.isEmpty_iff.1 h] at hlast
    cases hlast
  have hslash : base.toList.getLast? ≠ some '/' := by
    rw [hlast]
    exact fun h => hc (Option.some.inj h)
  unfold join
  rw [hname, hempty]
  simp [hslash]

theorem isName_iff :
    isName name = true ↔ '/' ∉ name.toList ∧ isIdle name = false ∧ name ≠ ".." := by
  unfold isName
  rw [Bool.and_eq_true, Bool.and_eq_true, Bool.not_eq_true', Bool.not_eq_true', decide_eq_true_eq,
    and_assoc, ← Bool.not_eq_true, List.contains_iff_mem]

theorem isAbsolute_of_isName (h : isName name = true) : isAbsolute name = false := by
  refine decide_eq_false fun hhead => ?_
  exact (isName_iff.1 h).1 (List.mem_of_mem_head? hhead)

theorem isEmpty_join (hbase : endsOpen base = true) (hname : isName name = true) :
    (join base name).isEmpty = false := by
  rw [Bool.eq_false_iff]
  intro hempty
  have hcs := congrArg String.toList (String.isEmpty_iff.1 hempty)
  rw [join_eq hbase (isAbsolute_of_isName hname), String.toList_append, String.toList_append] at hcs
  simp at hcs

/-- A name that continues a path is its last component. -/
theorem components_join (hbase : endsOpen base = true) (hname : isName name = true) :
    components (join base name) = components base ++ [name] := by
  rw [join_eq hbase (isAbsolute_of_isName hname)]
  unfold components
  rw [String.toList_append, String.toList_append, show "/".toList = ['/'] from rfl,
    List.append_assoc, List.singleton_append, Text.splitAt_append_sep,
    Text.splitAt_of_not_mem (isName_iff.1 hname).1, List.map_append, List.map_singleton,
    String.ofList_toList]

/-- Nothing is cut off at the back of a path that ends in a name. -/
theorem dropWhile_components_join (hbase : endsOpen base = true) (hname : isName name = true)
    {p : String → Bool} (hp : p name = false) :
    (components (join base name)).reverse.dropWhile p = name :: (components base).reverse := by
  rw [components_join hbase hname, List.reverse_append, List.reverse_singleton,
    List.singleton_append, List.dropWhile_cons_of_neg (by rw [hp]; exact Bool.false_ne_true)]

theorem start_join (hbase : endsOpen base = true) (hname : isName name = true) :
    start (join base name) = start base := by
  have hhead : (join base name).toList.head? = base.toList.head? := by
    rw [join_eq hbase (isAbsolute_of_isName hname), String.toList_append, String.toList_append,
      List.append_assoc]
    cases hcs : base.toList with
    | nil =>
      obtain ⟨c, hlast, -⟩ := endsOpen_iff.1 hbase
      rw [hcs] at hlast
      cases hlast
    | cons c rest => rfl
  unfold start isAbsolute
  rw [hhead]

theorem join_injective {other : String} (hbase : endsOpen base = true)
    (hname : isName name = true) (hother : isName other = true)
    (h : join base name = join base other) : name = other := by
  rw [join_eq hbase (isAbsolute_of_isName hname), join_eq hbase (isAbsolute_of_isName hother)] at h
  have hcs := congrArg String.toList h
  simp only [String.toList_append] at hcs
  exact String.toList_inj.1 (List.append_cancel_left hcs)

/-- A path ends as its last part does. -/
theorem endsOpen_join (base : String) (hname : endsOpen name = true) :
    endsOpen (join base name) = true := by
  obtain ⟨c, hlast, hc⟩ := endsOpen_iff.1 hname
  refine endsOpen_iff.2 ⟨c, ?_, hc⟩
  unfold join
  split
  · exact hlast
  split
  · rw [String.toList_append, List.getLast?_append, hlast, Option.some_or]
  · rw [String.toList_append, List.getLast?_append, hlast, Option.some_or]

end Join

theorem step?_of_isName {name : String} (h : isName name = true) (folder : Location) :
    step? folder name =
      if name.utf8ByteSize ≤ maxNameBytes then some (name :: folder) else none := by
  obtain ⟨-, hidle, hout⟩ := isName_iff.1 h
  unfold step?
  rw [if_neg (ne_true_of_eq_false hidle), if_neg hout]

/-! ## Visited locations -/

/-- The locations that components lead to, one after the other. -/
def visits (location : Location) : List String → List Location
  | [] => []
  | component :: rest =>
    match step? location component with
    | some next => next :: visits next rest
    | none => []

/-- The location that components lead to in the end. -/
def lead? (location : Location) : List String → Option Location
  | [] => some location
  | component :: rest => (step? location component).bind fun next => lead? next rest

theorem lead?_append (location : Location) (front back : List String) :
    lead? location (front ++ back) = (lead? location front).bind fun l => lead? l back := by
  induction front generalizing location with
  | nil => rfl
  | cons component rest ih =>
    rw [List.cons_append, lead?, lead?, Option.bind_assoc]
    exact congrArg _ (funext ih)

theorem visits_append {location last : Location} {front : List String}
    (h : lead? location front = some last) (back : List String) :
    visits location (front ++ back) = visits location front ++ visits last back := by
  induction front generalizing location with
  | nil =>
    cases h
    rfl
  | cons component rest ih =>
    obtain ⟨next, hnext, h⟩ := Option.bind_eq_some_iff.1 h
    rw [List.cons_append, visits, visits, hnext]
    show next :: visits next (rest ++ back) = next :: visits next rest ++ visits last back
    rw [ih h, List.cons_append]

/-- The end of a path is the last location visited. -/
theorem mem_visits_of_lead? {location last : Location} {components : List String}
    (h : lead? location components = some last) :
    last ∈ location :: visits location components := by
  induction components generalizing location with
  | nil =>
    cases h
    exact List.mem_singleton_self _
  | cons component rest ih =>
    obtain ⟨next, hnext, h⟩ := Option.bind_eq_some_iff.1 h
    rw [visits, hnext]
    exact List.mem_cons_of_mem _ (ih h)

/-- The locations that a path visits, from its start. -/
def visited (path : String) : List Location := start path :: visits (start path) (components path)

section Join

variable {base name : String} {folder : Location} (hbase : endsOpen base = true)
  (hname : isName name = true) (hlead : lead? (start base) (components base) = some folder)
  (hsize : name.utf8ByteSize ≤ maxNameBytes)

include hbase hname hlead hsize

theorem lead?_join :
    lead? (start (join base name)) (components (join base name)) = some (name :: folder) := by
  rw [start_join hbase hname, components_join hbase hname, lead?_append, hlead, Option.bind_some,
    lead?, step?_of_isName hname, if_pos hsize]
  rfl

theorem visited_join : visited (join base name) = visited base ++ [name :: folder] := by
  unfold visited
  rw [start_join hbase hname, components_join hbase hname, visits_append hlead, visits,
    step?_of_isName hname, if_pos hsize]
  rfl

end Join

end Path

/-! ## Following paths -/

namespace FileTree

variable {t : FileTree}

theorem walk?_append (t : FileTree) (location : Location) (front back : List String) :
    t.walk? location (front ++ back) = (t.walk? location front).bind fun l => t.walk? l back := by
  induction front generalizing location with
  | nil => rfl
  | cons component rest ih =>
    rw [List.cons_append, walk?, walk?]
    split
    · rw [Option.bind_assoc]
      exact congrArg _ (funext ih)
    · rfl

/-- Through folders a path can be followed to its end. -/
theorem walk?_of_folders {location : Location} {components : List String}
    (h : ∀ l ∈ location :: Path.visits location components, t.isFolder l = true) :
    t.walk? location components = Path.lead? location components := by
  induction components generalizing location with
  | nil => rfl
  | cons component rest ih =>
    rw [walk?, Path.lead?, if_pos (h location (List.mem_cons_self ..))]
    cases hstep : Path.step? location component with
    | none => rfl
    | some next =>
      rw [Path.visits, hstep] at h
      exact ih fun l hl => h l (List.mem_cons_of_mem _ hl)

theorem lead?_of_walk? {location last : Location} {components : List String}
    (h : t.walk? location components = some last) : Path.lead? location components = some last := by
  induction components generalizing location with
  | nil => exact h
  | cons component rest ih =>
    rw [walk?] at h
    split at h
    · obtain ⟨next, hnext, h⟩ := Option.bind_eq_some_iff.1 h
      rw [Path.lead?, hnext]
      exact ih h
    · cases h

/-- A path that leads to a folder visits folders only. -/
theorem folders_of_walk? {location last : Location} {components : List String}
    (h : t.walk? location components = some last) (hlast : t.isFolder last = true) :
    ∀ l ∈ location :: Path.visits location components, t.isFolder l = true := by
  induction components generalizing location with
  | nil =>
    cases h
    intro l hl
    rw [List.mem_singleton.1 hl]
    exact hlast
  | cons component rest ih =>
    rw [walk?] at h
    split at h
    next hfolder =>
      obtain ⟨next, hnext, h⟩ := Option.bind_eq_some_iff.1 h
      rw [Path.visits, hnext, List.forall_mem_cons]
      exact ⟨hfolder, ih h⟩
    next => cases h

theorem locate?_eq_some_iff {path : String} {location : Location} :
    t.locate? path = some location ↔
      path.isEmpty = false ∧ Path.isUsable path = true ∧
        t.walk? (Path.start path) (Path.components path) = some location := by
  unfold locate?
  cases path.isEmpty <;> cases Path.isUsable path <;> simp

/-- Can a name be addressed in the folder at a path? -/
def canName (base name : String) : Bool :=
  Path.isUsable (Path.join base name) && decide (name.utf8ByteSize ≤ Path.maxNameBytes)

theorem canName_iff {base name : String} :
    canName base name = true ↔
      Path.isUsable (Path.join base name) = true ∧ name.utf8ByteSize ≤ Path.maxNameBytes := by
  unfold canName
  rw [Bool.and_eq_true, decide_eq_true_eq]

/-- A path leads to a folder of the tree. -/
structure HasFolder (t : FileTree) (path : String) (folder : Location) : Prop where
  endsOpen : Path.endsOpen path = true
  walk : t.walk? (Path.start path) (Path.components path) = some folder
  isFolder : t.isFolder folder = true

namespace HasFolder

variable {base name : String} {folder : Location}

theorem visited_folders (h : t.HasFolder base folder) :
    ∀ l ∈ Path.visited base, t.isFolder l = true :=
  folders_of_walk? h.walk h.isFolder

/-- Through folders a path leads to a folder. -/
theorem of_visited (hopen : Path.endsOpen base = true)
    (hlead : Path.lead? (Path.start base) (Path.components base) = some folder)
    (h : ∀ l ∈ Path.visited base, t.isFolder l = true) : t.HasFolder base folder where
  endsOpen := hopen
  walk := (walk?_of_folders h).trans hlead
  isFolder := h folder (Path.mem_visits_of_lead? hlead)

theorem congr {t' : FileTree} (h : t.HasFolder base folder)
    (hfolders : ∀ l, t'.isFolder l = t.isFolder l) : t'.HasFolder base folder where
  endsOpen := h.endsOpen
  walk := (walk?_congr hfolders _ _).trans h.walk
  isFolder := (hfolders folder).trans h.isFolder

/-- Where a name leads that continues the path to a folder. -/
theorem locate?_join (h : t.HasFolder base folder) (hname : Path.isName name = true) :
    t.locate? (Path.join base name) =
      if canName base name then some (name :: folder) else none := by
  unfold locate? canName
  rw [Path.isEmpty_join h.endsOpen hname, Bool.false_or, Path.start_join h.endsOpen hname,
    Path.components_join h.endsOpen hname, walk?_append, h.walk, Option.bind_some, walk?,
    if_pos h.isFolder, Path.step?_of_isName hname]
  cases Path.isUsable (Path.join base name) with
  | false => rfl
  | true =>
    by_cases hsize : name.utf8ByteSize ≤ Path.maxNameBytes
    · simp [hsize, walk?]
    · simp [hsize]

theorem existsAt_join (h : t.HasFolder base folder) (hname : Path.isName name = true) :
    t.existsAt (Path.join base name) =
      (canName base name && (t.nodeAt? (name :: folder)).isSome) := by
  unfold existsAt
  rw [h.locate?_join hname]
  cases canName base name <;> rfl

end HasFolder

end FileTree

end FigureData
