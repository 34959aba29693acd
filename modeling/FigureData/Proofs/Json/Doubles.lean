/-
  The doubles of a document.

  Proved:
  * `floats_array`, `floats_object`: a document has the doubles of its parts.
  * `mapFloats_array`, `mapFloats_object`: doubles are replaced part by part.
  * `mapFloats_eq_self_iff`: replacing leaves a document as it is exactly when it leaves its
    doubles as they are.
  * `sorted_mapFloats`: sorting and replacing do not disturb each other.
-/
import FigureData.Proofs.Json.Sorted

namespace FigureData.Json

/-! ## Doubles -/

mutual

/-- The doubles of a document. -/
def floats : Json → List Float
  | .float x => [x]
  | .array items => floatsOfItems items
  | .object members => floatsOfMembers members
  | _ => []

def floatsOfItems : List Json → List Float
  | [] => []
  | j :: rest => floats j ++ floatsOfItems rest

def floatsOfMembers : List (String × Json) → List Float
  | [] => []
  | (_, j) :: rest => floats j ++ floatsOfMembers rest

end

theorem floats_array (items : List Json) : (Json.array items).floats = items.flatMap floats := by
  rw [floats]
  induction items with
  | nil => rfl
  | cons j rest ih => rw [floatsOfItems, ih, List.flatMap_cons]

theorem floats_object (members : List (String × Json)) :
    (Json.object members).floats = members.flatMap fun m => m.2.floats := by
  rw [floats]
  induction members with
  | nil => rfl
  | cons m rest ih => rw [floatsOfMembers, ih, List.flatMap_cons]

theorem mem_floats_array {items : List Json} {x : Float} :
    x ∈ (Json.array items).floats ↔ ∃ j ∈ items, x ∈ j.floats := by
  rw [floats_array, List.mem_flatMap]

theorem mem_floats_object {members : List (String × Json)} {x : Float} :
    x ∈ (Json.object members).floats ↔ ∃ m ∈ members, x ∈ m.2.floats := by
  rw [floats_object, List.mem_flatMap]

/-! ## Other doubles in their place -/

mutual

/-- Every double replaced. -/
def mapFloats (f : Float → Float) : Json → Json
  | .float x => .float (f x)
  | .array items => .array (mapFloatsOfItems f items)
  | .object members => .object (mapFloatsOfMembers f members)
  | j => j

def mapFloatsOfItems (f : Float → Float) : List Json → List Json
  | [] => []
  | j :: rest => mapFloats f j :: mapFloatsOfItems f rest

def mapFloatsOfMembers (f : Float → Float) : List (String × Json) → List (String × Json)
  | [] => []
  | (name, j) :: rest => (name, mapFloats f j) :: mapFloatsOfMembers f rest

end

variable {f : Float → Float}

theorem mapFloats_array (items : List Json) :
    (Json.array items).mapFloats f = .array (items.map (mapFloats f)) := by
  rw [mapFloats]
  congr 1
  induction items with
  | nil => rfl
  | cons j rest ih => rw [mapFloatsOfItems, ih, List.map_cons]

theorem mapFloats_object (members : List (String × Json)) :
    (Json.object members).mapFloats f = .object (members.map fun m => (m.1, m.2.mapFloats f)) := by
  rw [mapFloats]
  congr 1
  induction members with
  | nil => rfl
  | cons m rest ih => rw [mapFloatsOfMembers, ih, List.map_cons]

theorem map_eq_self_iff {α : Type} {g : α → α} {l : List α} : l.map g = l ↔ ∀ a ∈ l, g a = a := by
  have h := List.map_inj_left (l := l) (f := g) (g := id)
  rwa [List.map_id] at h

/-- Nothing changes exactly where every double is replaced by itself. -/
theorem mapFloats_eq_self_iff {j : Json} : j.mapFloats f = j ↔ ∀ x ∈ j.floats, f x = x := by
  induction j using inductionOn with
  | null | bool | int | string => exact ⟨fun _ => nofun, fun _ => rfl⟩
  | float x =>
    rw [mapFloats, float.injEq, floats, List.forall_mem_singleton]
  | array items ih =>
    rw [mapFloats_array, array.injEq, map_eq_self_iff, floats_array, List.forall_mem_flatMap]
    exact forall₂_congr ih
  | object members ih =>
    have hmember : ∀ m ∈ members,
        (m.1, m.2.mapFloats f) = m ↔ ∀ x ∈ m.2.floats, f x = x := by
      intro m hm
      rw [← ih m hm, Prod.ext_iff]
      exact and_iff_right rfl
    rw [mapFloats_object, object.injEq, map_eq_self_iff, floats_object, List.forall_mem_flatMap]
    exact forall₂_congr hmember

/-- Doubles may be replaced before members are sorted or after. -/
theorem sorted_mapFloats (j : Json) : (j.mapFloats f).sorted = j.sorted.mapFloats f := by
  induction j using inductionOn with
  | null | bool | int | float | string => rfl
  | array items ih =>
    rw [mapFloats_array, sorted_array, sorted_array, mapFloats_array, List.map_map, List.map_map]
    exact congrArg array (List.map_congr_left ih)
  | object members ih =>
    have hpairs : (members.map fun m => (m.1, m.2.mapFloats f)).map (fun m => (m.1, m.2.sorted)) =
        (members.map fun m => (m.1, m.2.sorted)).map fun m => (m.1, m.2.mapFloats f) := by
      rw [List.map_map, List.map_map]
      exact List.map_congr_left fun m hm => congrArg (Prod.mk m.1) (ih m hm)
    rw [mapFloats_object, sorted_object, sorted_object, mapFloats_object, memberMap, hpairs]
    exact congrArg object (SortedMap.insertAll_map (mapFloats f) rfl _)

end FigureData.Json
