/-
  Finite maps kept as a list of entries in strictly ascending key order.

  The order is part of the type, so two maps with the same look-ups are the
  same value and every listing of a map is canonical.

  * `insert` keeps the order (`sorted_insertEntry`) and overwrites.
  * `find?_insert_self`, `find?_insert_of_ne`: a look-up after a write.
-/
namespace FigureData

open Std

/-! ## Entry lists -/

section Entries

variable {κ α : Type} [Ord κ]

/-- Writes `value` under `key`, before the first larger key. -/
def insertEntry (key : κ) (value : α) : List (κ × α) → List (κ × α)
  | [] => [(key, value)]
  | (k, v) :: rest =>
    match compare key k with
    | .lt => (key, value) :: (k, v) :: rest
    | .eq => (key, value) :: rest
    | .gt => (k, v) :: insertEntry key value rest

/-- The value written under `key`. -/
def entryAt? (key : κ) : List (κ × α) → Option α
  | [] => none
  | (k, v) :: rest =>
    match compare key k with
    | .eq => some v
    | _ => entryAt? key rest

/-- Ascending keys, none twice. -/
def EntriesSorted (entries : List (κ × α)) : Prop :=
  entries.Pairwise fun a b => compare a.1 b.1 = .lt

instance (entries : List (κ × α)) : Decidable (EntriesSorted entries) :=
  inferInstanceAs (Decidable (entries.Pairwise _))

theorem mem_insertEntry {key : κ} {value : α} {entries : List (κ × α)} {e : κ × α}
    (h : e ∈ insertEntry key value entries) : e = (key, value) ∨ e ∈ entries := by
  induction entries with
  | nil => simpa [insertEntry] using h
  | cons head rest ih =>
    obtain ⟨k, v⟩ := head
    simp only [insertEntry] at h
    split at h <;> grind

theorem sorted_insertEntry [TransOrd κ] [LawfulEqOrd κ] (key : κ) (value : α)
    {entries : List (κ × α)} (h : EntriesSorted entries) :
    EntriesSorted (insertEntry key value entries) := by
  induction entries with
  | nil => simp [insertEntry, EntriesSorted]
  | cons head rest ih =>
    obtain ⟨k, v⟩ := head
    obtain ⟨hhead, hrest⟩ := List.pairwise_cons.1 h
    simp only [insertEntry]
    split
    · next hlt =>
      refine List.pairwise_cons.2 ⟨fun e he => ?_, h⟩
      rcases List.mem_cons.1 he with rfl | he
      · exact hlt
      · exact TransCmp.lt_trans hlt (hhead e he)
    · next heq =>
      have : key = k := LawfulEqCmp.eq_of_compare heq
      subst this
      exact List.pairwise_cons.2 ⟨hhead, hrest⟩
    · next hgt =>
      refine List.pairwise_cons.2 ⟨fun e he => ?_, ih hrest⟩
      rcases mem_insertEntry he with rfl | he
      · exact OrientedCmp.gt_iff_lt.1 hgt
      · exact hhead e he

theorem entryAt?_insertEntry_self [ReflOrd κ] (key : κ) (value : α)
    (entries : List (κ × α)) : entryAt? key (insertEntry key value entries) = some value := by
  induction entries with
  | nil => simp [insertEntry, entryAt?, ReflCmp.compare_self]
  | cons head rest ih =>
    obtain ⟨k, v⟩ := head
    simp only [insertEntry]
    split <;> simp_all [entryAt?, ReflCmp.compare_self]

theorem entryAt?_insertEntry_of_ne [LawfulEqOrd κ] {key other : κ} (value : α)
    (entries : List (κ × α)) (hne : other ≠ key) :
    entryAt? other (insertEntry key value entries) = entryAt? other entries := by
  have hcmp : compare other key ≠ .eq := fun h => hne (LawfulEqCmp.eq_of_compare h)
  induction entries with
  | nil => simp only [insertEntry, entryAt?]
  | cons head rest ih =>
    obtain ⟨k, v⟩ := head
    simp only [insertEntry]
    split
    · simp only [entryAt?]
    · next heq =>
      have : key = k := LawfulEqCmp.eq_of_compare heq
      subst this
      simp only [entryAt?]
    · simp only [entryAt?, ih]

theorem entryAt?_cons_of_ne {key k : κ} {v : α} (rest : List (κ × α)) (h : compare key k ≠ .eq) :
    entryAt? key ((k, v) :: rest) = entryAt? key rest := by
  simp only [entryAt?]

theorem entryAt?_filter [LawfulEqOrd κ] (key : κ) (p : κ → Bool) (entries : List (κ × α)) :
    entryAt? key (entries.filter fun e => p e.1) =
      if p key then entryAt? key entries else none := by
  induction entries with
  | nil => simp [entryAt?]
  | cons head rest ih =>
    obtain ⟨k, v⟩ := head
    by_cases hk : compare key k = .eq
    · have : key = k := LawfulEqCmp.eq_of_compare hk
      subst this
      by_cases hp : p key
      · simp [hp, entryAt?]
      · simp [hp, ih]
    · rw [entryAt?_cons_of_ne rest hk, ← ih, List.filter_cons]
      split
      · exact entryAt?_cons_of_ne _ hk
      · rfl

end Entries

/-! ## Maps -/

/-- A finite map, listed in ascending key order. -/
structure SortedMap (κ α : Type) [Ord κ] where
  entries : List (κ × α)
  sorted : EntriesSorted entries
  deriving DecidableEq

namespace SortedMap

variable {κ α : Type} [Ord κ]

def empty : SortedMap κ α := ⟨[], List.Pairwise.nil⟩

instance : EmptyCollection (SortedMap κ α) := ⟨empty⟩
instance : Inhabited (SortedMap κ α) := ⟨empty⟩

def isEmpty (m : SortedMap κ α) : Bool := m.entries.isEmpty

def keys (m : SortedMap κ α) : List κ := m.entries.map Prod.fst

def values (m : SortedMap κ α) : List α := m.entries.map Prod.snd

def find? (m : SortedMap κ α) (key : κ) : Option α := entryAt? key m.entries

def contains (m : SortedMap κ α) (key : κ) : Bool := (m.find? key).isSome

/-- Keeps the entries whose keys pass `p`. -/
def filterKeys (m : SortedMap κ α) (p : κ → Bool) : SortedMap κ α :=
  ⟨m.entries.filter fun e => p e.1, m.sorted.filter _⟩

theorem find?_filterKeys [LawfulEqOrd κ] (m : SortedMap κ α) (p : κ → Bool) (key : κ) :
    (m.filterKeys p).find? key = if p key then m.find? key else none :=
  entryAt?_filter key p m.entries

variable [TransOrd κ] [LawfulEqOrd κ]

/-- Writes `value` under `key`; an earlier value is overwritten. -/
def insert (m : SortedMap κ α) (key : κ) (value : α) : SortedMap κ α :=
  ⟨insertEntry key value m.entries, sorted_insertEntry key value m.sorted⟩

/-- Writes the pairs one after the other: of a repeated key the last value stays. -/
def insertAll (m : SortedMap κ α) (pairs : List (κ × α)) : SortedMap κ α :=
  pairs.foldl (fun acc e => acc.insert e.1 e.2) m

def ofList (pairs : List (κ × α)) : SortedMap κ α := insertAll empty pairs

@[simp] theorem find?_insert_self (m : SortedMap κ α) (key : κ) (value : α) :
    (m.insert key value).find? key = some value :=
  entryAt?_insertEntry_self key value m.entries

theorem find?_insert_of_ne (m : SortedMap κ α) {key other : κ} (value : α)
    (hne : other ≠ key) : (m.insert key value).find? other = m.find? other :=
  entryAt?_insertEntry_of_ne value m.entries hne

end SortedMap

end FigureData
