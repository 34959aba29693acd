/-
  File trees as values.

  A location is the list of names from a file or folder outwards to the working
  folder, which is the empty location.  Every file and folder lies in a folder
  of the tree (`FileTree.closed`).

  Names are texts: a name that is not UTF-8, which a loader reads lossily, is not covered.
-/
import FigureData.Bytes
import FigureData.SortedMap

namespace FigureData

/-! ## Trees -/

/-- Names from the inside out. -/
abbrev Location := List String

inductive Node where
  | folder
  | file (content : Bytes)
  deriving DecidableEq, Inhabited

/-- What stands at a location; the working folder is always there. -/
def nodeIn? (nodes : SortedMap Location Node) : Location → Option Node
  | [] => some .folder
  | location => nodes.find? location

/-- The files and folders below the working folder. -/
structure FileTree where
  nodes : SortedMap Location Node
  closed : ∀ name parent, (nodes.find? (name :: parent)).isSome →
    nodeIn? nodes parent = some .folder
  deriving DecidableEq

namespace FileTree

theorem closed_empty (name : String) (parent : Location) :
    ((∅ : SortedMap Location Node).find? (name :: parent)).isSome →
      nodeIn? ∅ parent = some .folder := by
  intro h
  cases h

instance : EmptyCollection FileTree := ⟨⟨∅, closed_empty⟩⟩
instance : Inhabited FileTree := ⟨∅⟩

/-! ## Look-ups -/

def nodeAt? (t : FileTree) (location : Location) : Option Node := nodeIn? t.nodes location

def isFolder (t : FileTree) (location : Location) : Bool :=
  decide (t.nodeAt? location = some .folder)

def contentAt? (t : FileTree) (location : Location) : Option Bytes :=
  match t.nodeAt? location with
  | some (.file content) => some content
  | _ => none

/-- The name and content of a node if it is a file that lies directly in a folder. -/
def fileIn? (folder : Location) : Location × Node → Option (String × Bytes)
  | (name :: parent, .file content) => if parent = folder then some (name, content) else none
  | _ => none

/-- The files that lie directly in a folder, in ascending order of their names. -/
def filesIn (t : FileTree) (folder : Location) : List (String × Bytes) :=
  t.nodes.entries.filterMap (fileIn? folder)

/-! ## Changes -/

theorem nodeIn?_insert {nodes : SortedMap Location Node} {name : String} {parent : Location}
    (node : Node) {other : Location} (hne : other ≠ name :: parent) :
    nodeIn? (nodes.insert (name :: parent) node) other = nodeIn? nodes other := by
  cases other with
  | nil => rfl
  | cons c rest => exact SortedMap.find?_insert_of_ne nodes node hne

/-- Writing a node keeps a tree closed when the parent is a folder and the
written location was none, unless it is one again. -/
theorem closed_insert (t : FileTree) {name : String} {parent : Location} {node : Node}
    (hparent : t.nodeAt? parent = some .folder)
    (hkeep : t.nodeAt? (name :: parent) = some .folder → node = .folder) :
    ∀ n p, ((t.nodes.insert (name :: parent) node).find? (n :: p)).isSome →
      nodeIn? (t.nodes.insert (name :: parent) node) p = some .folder := by
  intro n p h
  have hp : nodeIn? t.nodes p = some .folder := by
    by_cases he : n :: p = name :: parent
    · have : p = parent := (List.cons.inj he).2
      rw [this]
      exact hparent
    · rw [SortedMap.find?_insert_of_ne t.nodes node he] at h
      exact t.closed n p h
  by_cases hpe : p = name :: parent
  · subst hpe
    have hnode : node = .folder := hkeep hp
    subst hnode
    exact SortedMap.find?_insert_self t.nodes _ _
  · rw [nodeIn?_insert node hpe]
    exact hp

/-- Creates a folder in a folder, where nothing stands yet. -/
def makeFolder? (t : FileTree) (name : String) (parent : Location) : Option FileTree :=
  if h : t.nodeAt? parent = some .folder ∧ t.nodeAt? (name :: parent) = none then
    some ⟨t.nodes.insert (name :: parent) .folder, t.closed_insert h.1 fun _ => rfl⟩
  else none

/-- Writes a file into a folder, over an earlier file but not over a folder. -/
def writeFile? (t : FileTree) (name : String) (parent : Location) (content : Bytes) :
    Option FileTree :=
  if h : t.nodeAt? parent = some .folder ∧ t.nodeAt? (name :: parent) ≠ some .folder then
    some ⟨t.nodes.insert (name :: parent) (.file content),
      t.closed_insert h.1 fun hf => absurd hf h.2⟩
  else none

/-- Is a location inside a folder, at any depth? -/
def isInside (folder location : Location) : Bool :=
  decide (folder <:+ location) && decide (location ≠ folder)

theorem isInside_cons {folder parent : Location} (name : String)
    (h : isInside folder parent = true) : isInside folder (name :: parent) = true := by
  simp only [isInside, Bool.and_eq_true, decide_eq_true_eq] at h ⊢
  refine ⟨List.IsSuffix.trans h.1 (List.suffix_cons name parent), fun he => ?_⟩
  have hlength := h.1.length_le
  rw [← he] at hlength
  simp only [List.length_cons] at hlength
  omega

/-- Removes everything in a folder, and leaves the folder. -/
def clear (t : FileTree) (folder : Location) : FileTree where
  nodes := t.nodes.filterKeys fun location => !isInside folder location
  closed := by
    intro n p h
    rw [SortedMap.find?_filterKeys] at h
    split at h
    · next hout =>
      have hp := t.closed n p h
      cases p with
      | nil => rfl
      | cons c rest =>
        have hkept : (!isInside folder (c :: rest)) = true := by
          cases hin : isInside folder (c :: rest) with
          | false => rfl
          | true => simp [isInside_cons n hin] at hout
        simp only [nodeIn?]
        rw [SortedMap.find?_filterKeys, if_pos hkept]
        exact hp
    · cases h

/-- Removes what stands at a location and everything below it. -/
def remove (t : FileTree) (name : String) (parent : Location) : FileTree where
  nodes := t.nodes.filterKeys fun location => !decide ((name :: parent) <:+ location)
  closed := by
    intro n p h
    rw [SortedMap.find?_filterKeys] at h
    split at h
    · next hout =>
      have hp := t.closed n p h
      cases p with
      | nil => rfl
      | cons c rest =>
        have hrest : ¬ (name :: parent) <:+ (c :: rest) := by
          intro hsuffix
          have hin : (name :: parent) <:+ n :: c :: rest :=
            List.IsSuffix.trans hsuffix (List.suffix_cons n (c :: rest))
          simp [hin] at hout
        simp only [nodeIn?]
        rw [SortedMap.find?_filterKeys, if_pos (by simp [hrest])]
        exact hp
    · cases h

end FileTree

end FigureData
