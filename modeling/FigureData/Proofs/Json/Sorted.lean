/-
  Documents with sorted members.

  Sorting enters the members of every object into a map, so of a repeated name the last value
  stays and the names ascend.  A document whose names ascend everywhere is left as it is.

  Proved:
  * `sorted_object`: members are entered as into a map.
  * `mem_memberMap`, `find?_memberMap`: every member comes from one that was there, of several
    with one name from the last.
  * `ascending_sorted`, `sorted_of_ascending`: names ascend after sorting, and where they do
    sorting changes nothing.
-/
import FigureData.Json.Document
import FigureData.Proofs.Maps
import FigureData.Proofs.Text.Utf8

namespace FigureData.Json

/-! ## Members as a map -/

theorem sortItems_eq (items : List Json) : sortItems items = items.map sorted := by
  induction items with
  | nil => rfl
  | cons j rest ih => rw [sortItems, ih, List.map_cons]

/-- Members are entered as into a map. -/
theorem sortMembers_eq (m : SortedMap String Json) (members : List (String × Json)) :
    sortMembers m.entries members =
      (m.insertAll (members.map fun e => (e.1, e.2.sorted))).entries := by
  induction members generalizing m with
  | nil => rfl
  | cons head rest ih =>
    rw [sortMembers, List.map_cons]
    exact ih (m.insert head.1 head.2.sorted)

/-- The members of an object as a map from their names, each of them sorted. -/
def memberMap (members : List (String × Json)) : SortedMap String Json :=
  SortedMap.ofList (members.map fun e => (e.1, e.2.sorted))

theorem sorted_array (items : List Json) : (Json.array items).sorted = .array (items.map sorted) := by
  rw [sorted, sortItems_eq]

theorem sorted_object (members : List (String × Json)) :
    (Json.object members).sorted = .object (memberMap members).entries := by
  rw [sorted]
  exact congrArg Json.object (sortMembers_eq (SortedMap.empty : SortedMap String Json) members)

/-- Every member comes from one that was there. -/
theorem mem_memberMap {members : List (String × Json)} {m : String × Json}
    (h : m ∈ (memberMap members).entries) : ∃ m' ∈ members, (m'.1, m'.2.sorted) = m := by
  rcases SortedMap.mem_insertAll h with h | h
  · cases h
  · exact List.mem_map.1 h

/-- The value of a member, the last one where its name is repeated. -/
def lastMember? (members : List (String × Json)) (name : String) : Option Json :=
  members.reverse.lookup name

theorem mem_of_lastMember? {members : List (String × Json)} {name : String} {j : Json}
    (h : lastMember? members name = some j) : (name, j) ∈ members := by
  obtain ⟨front, back, hsplit, -⟩ := List.lookup_eq_some_iff.1 h
  rw [← List.mem_reverse, hsplit]
  exact List.mem_append_right _ (List.mem_cons_self ..)

/-- Under a name stands the last member of that name. -/
theorem find?_memberMap (members : List (String × Json)) (name : String) :
    (memberMap members).find? name = (lastMember? members name).map sorted := by
  unfold memberMap lastMember?
  rw [SortedMap.ofList, SortedMap.find?_insertAll, ← List.map_reverse, lookup_map_snd]
  exact Option.or_none

/-! ## Ascending names -/

/-- What holds of leaves, of arrays if of their items and of objects if of their members holds
of every document. -/
@[elab_as_elim]
theorem inductionOn {motive : Json → Prop} (null : motive .null) (bool : ∀ b, motive (.bool b))
    (int : ∀ n, motive (.int n)) (float : ∀ x, motive (.float x))
    (string : ∀ s, motive (.string s))
    (array : ∀ items, (∀ j ∈ items, motive j) → motive (.array items))
    (object : ∀ members, (∀ m ∈ members, motive m.2) → motive (.object members)) (j : Json) :
    motive j :=
  match j with
  | .null => null
  | .bool b => bool b
  | .int n => int n
  | .float x => float x
  | .string s => string s
  | .array items =>
    array items fun j _ => inductionOn null bool int float string array object j
  | .object members =>
    object members fun m _ => inductionOn null bool int float string array object m.2
termination_by sizeOf j
decreasing_by
  · have := List.sizeOf_lt_of_mem ‹j ∈ items›
    simp only [Json.array.sizeOf_spec]
    omega
  · have := List.sizeOf_lt_of_mem ‹m ∈ members›
    obtain ⟨name, j⟩ := m
    simp only [Json.object.sizeOf_spec, Prod.mk.sizeOf_spec] at this ⊢
    omega

/-- Every object has its names strictly ascending in the order of their bytes. -/
inductive Ascending : Json → Prop
  | null : Ascending .null
  | bool (b : Bool) : Ascending (.bool b)
  | int (n : Int) : Ascending (.int n)
  | float (x : Float) : Ascending (.float x)
  | string (s : String) : Ascending (.string s)
  | array {items : List Json} (h : ∀ j ∈ items, Ascending j) : Ascending (.array items)
  | object {members : List (String × Json)}
      (names : members.Pairwise fun a b => Bytes.ofText a.1 < Bytes.ofText b.1)
      (h : ∀ m ∈ members, Ascending m.2) : Ascending (.object members)

/-- Names are compared by their bytes. -/
theorem compare_eq_lt_iff {a b : String} :
    compare a b = .lt ↔ Bytes.ofText a < Bytes.ofText b := by
  rw [compare_lt_iff_lt, Bytes.ofText_lt_iff]

theorem ascending_sorted (j : Json) : Ascending j.sorted := by
  induction j using inductionOn with
  | null => exact .null
  | bool b => exact .bool b
  | int n => exact .int n
  | float x => exact .float x
  | string s => exact .string s
  | array items ih =>
    rw [sorted_array]
    exact .array (List.forall_mem_map.2 ih)
  | object members ih =>
    rw [sorted_object]
    refine .object ((memberMap members).sorted.imp compare_eq_lt_iff.1) fun m hm => ?_
    obtain ⟨m', hm', rfl⟩ := mem_memberMap hm
    exact ih m' hm'

/-- Where all names ascend already, sorting changes nothing. -/
theorem sorted_of_ascending {j : Json} (h : Ascending j) : j.sorted = j := by
  induction h with
  | null | bool | int | float | string => rfl
  | array _ ih => rw [sorted_array, (List.map_congr_left ih).trans (List.map_id _)]
  | @object members hnames _ ih =>
    have hmembers : members.map (fun e => (e.1, e.2.sorted)) = members := by
      refine (List.map_congr_left fun e he => ?_).trans (List.map_id members)
      rw [ih e he]
      rfl
    have hmap := SortedMap.ofList_entries ⟨members, hnames.imp compare_eq_lt_iff.2⟩
    rw [sorted_object, memberMap, hmembers, hmap]

end FigureData.Json
