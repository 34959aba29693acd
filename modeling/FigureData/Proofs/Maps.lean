/-
  Look-ups and entries of maps after several writes.

  Proved:
  * `OrderedMap.find?_eq_some_iff`: a look-up finds exactly the entries of the map.
  * `OrderedMap.mem_insertAll`: every entry was there before or was written.
  * `OrderedMap.keys_insertAll_of_subset`: writing under keys that are present keeps the
    keys and their order; `OrderedMap.keys_insertAll_empty`: into an empty map, the keys
    come in the order of writing.
  * `OrderedMap.values_insert_of_none`, `OrderedMap.map_values_insert`: a new key comes last, and
    a write under a key that is there changes nothing but the value in its place.
  * `OrderedMap.find?_insert`, `OrderedMap.find?_insertAll`, `SortedMap.find?_insertAll`: a
    look-up after a write and after several ones, of which the last under the key counts.
  * `SortedMap.find?_eq_some_iff`, `SortedMap.mem_keys_iff`: a look-up in a sorted map finds exactly
    its entries.
  * `SortedMap.ofList_entries`: a sorted map is made of its entries.
  * `SortedMap.ext_find?`, `OrderedMap.ext_find?`: maps with the same look-ups are the same, where
    the order of insertion is remembered also in that order.
-/
import FigureData.OrderedMap
import FigureData.SortedMap

namespace FigureData

open Std

/-! ## Entry lists -/

section Entries

variable {α : Type}

theorem mem_putEntry {key : String} {value : α} {entries : List (String × α)} {x : String × α}
    (h : x ∈ putEntry key value entries) : x = (key, value) ∨ x ∈ entries := by
  induction entries with
  | nil => exact .inl (List.mem_singleton.1 h)
  | cons head rest ih =>
    obtain ⟨k, v⟩ := head
    unfold putEntry at h
    split at h
    · rcases List.mem_cons.1 h with h | h
      · exact .inl h
      · exact .inr (List.mem_cons_of_mem _ h)
    · rcases List.mem_cons.1 h with h | h
      · exact .inr (h ▸ List.mem_cons_self ..)
      · rcases ih h with h | h
        · exact .inl h
        · exact .inr (List.mem_cons_of_mem _ h)

theorem lookup_putEntry (key other : String) (value : α) (entries : List (String × α)) :
    (putEntry key value entries).lookup other =
      if other = key then some value else entries.lookup other := by
  induction entries with
  | nil =>
    unfold putEntry
    rw [List.lookup_cons]
    by_cases h : other = key
    · rw [if_pos h, beq_iff_eq.2 h]
    · rw [if_neg h, beq_eq_false_iff_ne.2 h]
  | cons head rest ih =>
    obtain ⟨k, v⟩ := head
    unfold putEntry
    split
    next hk =>
      subst hk
      rw [List.lookup_cons, List.lookup_cons]
      by_cases h : other = k
      · rw [if_pos h, beq_iff_eq.2 h]
      · rw [if_neg h, beq_eq_false_iff_ne.2 h]
    next hk =>
      rw [List.lookup_cons, List.lookup_cons, ih]
      by_cases h : other = k
      · have hne : other ≠ key := fun he => hk (h.symm.trans he)
        rw [beq_iff_eq.2 h]
        exact (if_neg hne).symm
      · rw [beq_eq_false_iff_ne.2 h]

theorem putEntry_of_lookup_none {key : String} {entries : List (String × α)}
    (h : entries.lookup key = none) (value : α) :
    putEntry key value entries = entries ++ [(key, value)] := by
  induction entries with
  | nil => rfl
  | cons head rest ih =>
    obtain ⟨k, v⟩ := head
    rw [List.lookup_cons] at h
    split at h
    · cases h
    next hne =>
      have hk : k ≠ key := fun hk => beq_eq_false_iff_ne.1 hne hk.symm
      unfold putEntry
      rw [if_neg hk, ih h, List.cons_append]

theorem map_putEntry_of_lookup {β : Type} (g : α → β) {key : String} {old value : α}
    {entries : List (String × α)} (h : entries.lookup key = some old) (hg : g value = g old) :
    (putEntry key value entries).map (g ∘ Prod.snd) = entries.map (g ∘ Prod.snd) := by
  induction entries with
  | nil => cases h
  | cons head rest ih =>
    obtain ⟨k, v⟩ := head
    rw [List.lookup_cons] at h
    unfold putEntry
    split at h
    next heq =>
      obtain rfl : key = k := beq_iff_eq.1 heq
      obtain rfl : v = old := Option.some.inj h
      rw [if_pos rfl, List.map_cons, List.map_cons]
      exact congrArg (· :: _) hg
    next hne =>
      have hk : k ≠ key := fun hk => beq_eq_false_iff_ne.1 hne hk.symm
      rw [if_neg hk, List.map_cons, List.map_cons, ih h]

theorem lookup_eq_some_iff {entries : List (String × α)} (h : (entries.map Prod.fst).Nodup)
    {key : String} {value : α} : entries.lookup key = some value ↔ (key, value) ∈ entries := by
  induction entries with
  | nil => simp
  | cons head rest ih =>
    obtain ⟨k, v⟩ := head
    obtain ⟨habsent, hrest⟩ := List.nodup_cons.1 h
    rw [List.lookup_cons, List.mem_cons, Prod.mk.injEq]
    by_cases hk : key = k
    · subst hk
      rw [beq_self_eq_true]
      constructor
      · intro he
        exact .inl ⟨rfl, (Option.some.inj he).symm⟩
      · rintro (⟨-, rfl⟩ | hmem)
        · rfl
        · exact absurd (List.mem_map.2 ⟨_, hmem, rfl⟩) habsent
    · rw [beq_eq_false_iff_ne.2 hk]
      rw [ih hrest]
      constructor
      · exact .inr
      · rintro (⟨he, -⟩ | hmem)
        · exact absurd he hk
        · exact hmem

/-- A key that is there is found, with a value that is there under it. -/
theorem exists_lookup {entries : List (String × α)} {key : String}
    (h : key ∈ entries.map Prod.fst) :
    ∃ value, entries.lookup key = some value ∧ (key, value) ∈ entries := by
  induction entries with
  | nil => cases h
  | cons head rest ih =>
    obtain ⟨k, v⟩ := head
    rw [List.lookup_cons]
    by_cases hk : key = k
    · subst hk
      exact ⟨v, by rw [beq_self_eq_true], List.mem_cons_self ..⟩
    · rw [List.map_cons, List.mem_cons, or_iff_right hk] at h
      obtain ⟨value, hvalue, hmem⟩ := ih h
      refine ⟨value, ?_, List.mem_cons_of_mem _ hmem⟩
      rw [beq_eq_false_iff_ne.2 hk, hvalue]

theorem lookup_eq_none_iff {entries : List (String × α)} {key : String} :
    entries.lookup key = none ↔ key ∉ entries.map Prod.fst := by
  rw [List.lookup_eq_none_iff, List.mem_map]
  constructor
  · rintro h ⟨e, he, rfl⟩
    exact bne_iff_ne.1 (h e he) rfl
  · intro h e he
    exact bne_iff_ne.2 fun heq => h ⟨e, he, heq.symm⟩

/-- The first of several writes counts only where no later one is under the key. -/
theorem lookup_reverse_cons_or (head : String × α) (rest : List (String × α)) (key : String)
    (old : Option α) :
    ((head :: rest).reverse.lookup key).or old =
      (rest.reverse.lookup key).or (if key = head.1 then some head.2 else old) := by
  rw [List.reverse_cons, List.lookup_append, Option.or_assoc, List.lookup_cons, List.lookup_nil]
  by_cases h : key = head.1
  · rw [if_pos h, beq_iff_eq.2 h, Option.some_or]
  · rw [if_neg h, beq_eq_false_iff_ne.2 h, Option.none_or]

theorem lookup_map_snd {β : Type} (f : α → β) (entries : List (String × α)) (key : String) :
    (entries.map fun e => (e.1, f e.2)).lookup key = (entries.lookup key).map f := by
  induction entries with
  | nil => rfl
  | cons head rest ih =>
    rw [List.map_cons, List.lookup_cons, List.lookup_cons, ih]
    cases key == head.1 <;> rfl

end Entries

/-! ## Maps in order of insertion -/

namespace OrderedMap

variable {α : Type}

/-- A look-up finds exactly the entries of the map. -/
theorem find?_eq_some_iff {m : OrderedMap α} {key : String} {value : α} :
    m.find? key = some value ↔ (key, value) ∈ m.entries :=
  lookup_eq_some_iff m.nodup

theorem find?_eq_none_iff {m : OrderedMap α} {key : String} : m.find? key = none ↔ key ∉ m.keys :=
  lookup_eq_none_iff

theorem find?_insert (m : OrderedMap α) (key other : String) (value : α) :
    (m.insert key value).find? other = if other = key then some value else m.find? other :=
  lookup_putEntry key other value m.entries

/-- A new key comes last. -/
theorem values_insert_of_none {m : OrderedMap α} {key : String} (h : m.find? key = none)
    (value : α) : (m.insert key value).values = m.values ++ [value] := by
  show (putEntry key value m.entries).map Prod.snd = m.entries.map Prod.snd ++ [value]
  rw [putEntry_of_lookup_none h, List.map_append]
  rfl

/-- Writing in place keeps, value by value, what the new value shares with the old one. -/
theorem map_values_insert {β : Type} (g : α → β) {m : OrderedMap α} {key : String} {old value : α}
    (h : m.find? key = some old) (hg : g value = g old) :
    (m.insert key value).values.map g = m.values.map g := by
  show ((putEntry key value m.entries).map Prod.snd).map g = (m.entries.map Prod.snd).map g
  rw [List.map_map, List.map_map]
  exact map_putEntry_of_lookup g h hg

/-- Of several writes under a key the last counts. -/
theorem find?_insertAll (m : OrderedMap α) (pairs : List (String × α)) (key : String) :
    (m.insertAll pairs).find? key = (pairs.reverse.lookup key).or (m.find? key) := by
  induction pairs generalizing m with
  | nil => rfl
  | cons head rest ih =>
    show ((m.insert head.1 head.2).insertAll rest).find? key = _
    rw [ih, find?_insert, lookup_reverse_cons_or]

theorem exists_find? {m : OrderedMap α} {key : String} (h : key ∈ m.keys) :
    ∃ value, m.find? key = some value := by
  obtain ⟨⟨k, v⟩, hmem, rfl⟩ := List.mem_map.1 h
  exact ⟨v, find?_eq_some_iff.2 hmem⟩

/-- Every entry was there before or was written. -/
theorem mem_insertAll {m : OrderedMap α} {pairs : List (String × α)} {x : String × α}
    (h : x ∈ (m.insertAll pairs).entries) : x ∈ m.entries ∨ x ∈ pairs := by
  induction pairs generalizing m with
  | nil => exact .inl h
  | cons head rest ih =>
    rcases ih h with h | h
    · rcases mem_putEntry h with h | h
      · exact .inr (h ▸ List.mem_cons_self ..)
      · exact .inl h
    · exact .inr (List.mem_cons_of_mem _ h)

/-- Writing under keys that are present keeps the keys and their order. -/
theorem keys_insertAll_of_subset (m : OrderedMap α) (pairs : List (String × α))
    (h : ∀ x ∈ pairs, x.1 ∈ m.keys) : (m.insertAll pairs).keys = m.keys := by
  induction pairs generalizing m with
  | nil => rfl
  | cons head rest ih =>
    have hkeys : (m.insert head.1 head.2).keys = m.keys := by
      rw [keys_insert, if_pos (h head (List.mem_cons_self ..))]
    rw [← hkeys]
    apply ih
    intro x hx
    rw [hkeys]
    exact h x (List.mem_cons_of_mem _ hx)

/-- New keys come after the keys of the map, in the order of writing. -/
theorem keys_insertAll_of_new (m : OrderedMap α) (pairs : List (String × α))
    (h : (m.keys ++ pairs.map Prod.fst).Nodup) :
    (m.insertAll pairs).keys = m.keys ++ pairs.map Prod.fst := by
  induction pairs generalizing m with
  | nil => rw [List.map_nil, List.append_nil]; rfl
  | cons head rest ih =>
    rw [List.map_cons] at h ⊢
    have hnew : head.1 ∉ m.keys := by
      intro hmem
      exact (List.nodup_append.1 h).2.2 _ hmem _ (List.mem_cons_self ..) rfl
    have hkeys : (m.insert head.1 head.2).keys = m.keys ++ [head.1] := by
      rw [keys_insert, if_neg hnew]
    have := ih (m.insert head.1 head.2) (by rw [hkeys, List.append_assoc]; exact h)
    rw [hkeys, List.append_assoc] at this
    exact this

theorem keys_insertAll_empty (pairs : List (String × α)) (h : (pairs.map Prod.fst).Nodup) :
    ((∅ : OrderedMap α).insertAll pairs).keys = pairs.map Prod.fst :=
  keys_insertAll_of_new ∅ pairs h

/-- Maps with the same look-ups have the same entries, up to their order. -/
theorem entries_perm_of_find? {m m' : OrderedMap α} (h : ∀ key, m.find? key = m'.find? key) :
    m.entries.Perm m'.entries := by
  have hnodup : ∀ m : OrderedMap α, m.entries.Nodup := fun m =>
    (List.pairwise_map.1 m.nodup).imp fun hne heq => hne (congrArg Prod.fst heq)
  rw [List.perm_ext_iff_of_nodup (hnodup m) (hnodup m')]
  intro e
  rw [← find?_eq_some_iff, ← find?_eq_some_iff, h]

theorem map_find?_keys (m : OrderedMap α) :
    m.keys.map (fun key => (key, m.find? key)) = m.entries.map fun e => (e.1, some e.2) := by
  unfold keys
  rw [List.map_map]
  refine List.map_congr_left fun e he => ?_
  exact congrArg _ (find?_eq_some_iff.2 he)

/-- Maps with the same keys in the same order and the same look-ups are the same. -/
theorem ext_find? {m m' : OrderedMap α} (hkeys : m.keys = m'.keys)
    (hfind : ∀ key, m.find? key = m'.find? key) : m = m' := by
  have hentries : m.entries = m'.entries := by
    have hinj : ∀ e e' : String × α, (e.1, some e.2) = (e'.1, some e'.2) → e = e' := by
      rintro ⟨k, v⟩ ⟨k', v'⟩ h
      cases h
      rfl
    rw [← List.map_inj_right hinj, ← map_find?_keys, ← map_find?_keys, hkeys]
    exact List.map_congr_left fun key _ => by rw [hfind]
  cases m
  cases m'
  cases hentries
  rfl

end OrderedMap

/-! ## Maps in ascending order -/

section Sorted

variable {κ α : Type} [Ord κ] [TransOrd κ] [LawfulEqOrd κ]

theorem entryAt?_of_mem {key : κ} {value : α} {entries : List (κ × α)} (h : EntriesSorted entries)
    (hmem : (key, value) ∈ entries) : entryAt? key entries = some value := by
  induction entries with
  | nil => cases hmem
  | cons head rest ih =>
    obtain ⟨k, v⟩ := head
    obtain ⟨hhead, hrest⟩ := List.pairwise_cons.1 h
    rcases List.mem_cons.1 hmem with he | hmem
    · cases he
      have hrefl : compare key key = .eq := ReflCmp.compare_self
      unfold entryAt?
      rw [hrefl]
    · have hlt : compare k key = .lt := hhead _ hmem
      have hne : compare key k ≠ .eq := by
        rw [OrientedCmp.gt_of_lt hlt]
        decide
      rw [entryAt?_cons_of_ne rest hne]
      exact ih hrest hmem

omit [TransOrd κ] in
theorem mem_of_entryAt? {key : κ} {value : α} {entries : List (κ × α)}
    (h : entryAt? key entries = some value) : (key, value) ∈ entries := by
  induction entries with
  | nil => cases h
  | cons head rest ih =>
    obtain ⟨k, v⟩ := head
    unfold entryAt? at h
    split at h
    next heq =>
      obtain rfl : key = k := LawfulEqCmp.eq_of_compare heq
      cases h
      exact List.mem_cons_self ..
    next => exact List.mem_cons_of_mem _ (ih h)

/-- Of a sorted list, at most one entry has a key: the one that is found. -/
theorem filter_key_of_sorted [DecidableEq κ] {entries : List (κ × α)} (h : EntriesSorted entries)
    (key : κ) : entries.filter (fun e => e.1 = key) =
      ((entryAt? key entries).map fun value => (key, value)).toList := by
  induction entries with
  | nil => rfl
  | cons head rest ih =>
    obtain ⟨k, v⟩ := head
    obtain ⟨hhead, hrest⟩ := List.pairwise_cons.1 h
    by_cases hk : k = key
    · subst hk
      have hrefl : compare k k = .eq := ReflCmp.compare_self
      have hnone : rest.filter (fun e => e.1 = k) = [] := by
        rw [List.filter_eq_nil_iff]
        intro e he heq
        have hlt := hhead e he
        rw [of_decide_eq_true heq, hrefl] at hlt
        cases hlt
      rw [List.filter_cons, if_pos (decide_eq_true rfl), hnone,
        entryAt?_of_mem h (List.mem_cons_self ..)]
      rfl
    · have hne : compare key k ≠ .eq := fun heq => hk (LawfulEqCmp.eq_of_compare heq).symm
      rw [List.filter_cons_of_neg (by simpa using hk), ih hrest, entryAt?_cons_of_ne rest hne]

omit [TransOrd κ] [LawfulEqOrd κ] in
theorem insertEntry_of_lt [OrientedOrd κ] {entries : List (κ × α)} {key : κ} (value : α)
    (h : ∀ e ∈ entries, compare e.1 key = .lt) :
    insertEntry key value entries = entries ++ [(key, value)] := by
  induction entries with
  | nil => rfl
  | cons head rest ih =>
    obtain ⟨k, v⟩ := head
    rw [List.forall_mem_cons] at h
    unfold insertEntry
    rw [OrientedCmp.gt_of_lt h.1]
    simp only
    rw [ih h.2, List.cons_append]

/-- Entries written in ascending order stand behind each other. -/
theorem SortedMap.insertAll_of_sorted {m : SortedMap κ α} {pairs : List (κ × α)}
    (h : EntriesSorted (m.entries ++ pairs)) :
    (m.insertAll pairs).entries = m.entries ++ pairs := by
  induction pairs generalizing m with
  | nil => exact (List.append_nil _).symm
  | cons head rest ih =>
    have hlast : (m.insert head.1 head.2).entries = m.entries ++ [head] := by
      refine insertEntry_of_lt head.2 fun e he => ?_
      exact (List.pairwise_append.1 h).2.2 e he head (List.mem_cons_self ..)
    have hsplit : m.entries ++ head :: rest = (m.insert head.1 head.2).entries ++ rest := by
      rw [hlast, List.append_assoc, List.singleton_append]
    rw [hsplit] at h ⊢
    exact ih h

omit [TransOrd κ] [LawfulEqOrd κ] in
theorem insertEntry_map {β : Type} (g : α → β) (key : κ) (value : α) (entries : List (κ × α)) :
    insertEntry key (g value) (entries.map fun e => (e.1, g e.2)) =
      (insertEntry key value entries).map fun e => (e.1, g e.2) := by
  induction entries with
  | nil => rfl
  | cons head rest ih =>
    obtain ⟨k, v⟩ := head
    rw [List.map_cons, insertEntry, insertEntry]
    cases compare key k with
    | lt | eq => rfl
    | gt => exact congrArg (_ :: ·) ih

/-- Values may be changed before they are written or after. -/
theorem SortedMap.insertAll_map {β : Type} (g : α → β) {m : SortedMap κ α} {m' : SortedMap κ β}
    (h : m'.entries = m.entries.map fun e => (e.1, g e.2)) (pairs : List (κ × α)) :
    (m'.insertAll (pairs.map fun e => (e.1, g e.2))).entries =
      (m.insertAll pairs).entries.map fun e => (e.1, g e.2) := by
  induction pairs generalizing m m' with
  | nil => exact h
  | cons head rest ih =>
    have hhead : (m'.insert head.1 (g head.2)).entries =
        (m.insert head.1 head.2).entries.map fun e => (e.1, g e.2) := by
      show insertEntry head.1 (g head.2) m'.entries = _
      rw [h, insertEntry_map]
      rfl
    exact ih hhead

omit [TransOrd κ] [LawfulEqOrd κ] in
/-- Maps with the same entries are the same. -/
theorem SortedMap.ext_entries {m m' : SortedMap κ α} (h : m.entries = m'.entries) : m = m' := by
  cases m
  cases m'
  cases h
  rfl

/-- A map is made of its entries. -/
theorem SortedMap.ofList_entries (m : SortedMap κ α) : SortedMap.ofList m.entries = m :=
  ext_entries (insertAll_of_sorted (m := (empty : SortedMap κ α)) m.sorted)

/-- Every entry was there before or was written. -/
theorem SortedMap.mem_insertAll {m : SortedMap κ α} {pairs : List (κ × α)} {x : κ × α}
    (h : x ∈ (m.insertAll pairs).entries) : x ∈ m.entries ∨ x ∈ pairs := by
  induction pairs generalizing m with
  | nil => exact .inl h
  | cons head rest ih =>
    rcases ih h with h | h
    · rcases mem_insertEntry h with h | h
      · exact .inr (h ▸ List.mem_cons_self ..)
      · exact .inl h
    · exact .inr (List.mem_cons_of_mem _ h)

/-- Every entry is found under its key. -/
theorem SortedMap.find?_of_mem {m : SortedMap κ α} {key : κ} {value : α}
    (h : (key, value) ∈ m.entries) : m.find? key = some value :=
  entryAt?_of_mem m.sorted h

/-- A look-up finds exactly the entries of the map. -/
theorem SortedMap.find?_eq_some_iff {m : SortedMap κ α} {key : κ} {value : α} :
    m.find? key = some value ↔ (key, value) ∈ m.entries :=
  ⟨mem_of_entryAt?, find?_of_mem⟩

theorem SortedMap.mem_keys_iff {m : SortedMap κ α} {key : κ} :
    key ∈ m.keys ↔ ∃ value, m.find? key = some value := by
  unfold keys
  rw [List.mem_map]
  constructor
  · rintro ⟨⟨k, value⟩, hmem, rfl⟩
    exact ⟨value, find?_of_mem hmem⟩
  · rintro ⟨value, hfind⟩
    exact ⟨_, find?_eq_some_iff.1 hfind, rfl⟩

/-- Maps with the same look-ups are the same. -/
theorem SortedMap.ext_find? {m m' : SortedMap κ α} (h : ∀ key, m.find? key = m'.find? key) :
    m = m' := by
  have hnodup : ∀ m : SortedMap κ α, m.entries.Nodup := by
    intro m
    refine m.sorted.imp ?_
    rintro a b hlt rfl
    have hrefl : compare a.1 a.1 = .eq := ReflCmp.compare_self
    rw [hrefl] at hlt
    cases hlt
  have hperm : m.entries.Perm m'.entries := by
    rw [List.perm_ext_iff_of_nodup (hnodup m) (hnodup m')]
    intro e
    rw [← find?_eq_some_iff, ← find?_eq_some_iff, h]
  refine ext_entries (hperm.eq_of_pairwise ?_ m.sorted m'.sorted)
  intro a b _ _ hlt hgt
  rw [OrientedCmp.gt_of_lt hlt] at hgt
  cases hgt

end Sorted

theorem SortedMap.find?_insert {α : Type} (m : SortedMap String α) (key other : String)
    (value : α) :
    (m.insert key value).find? other = if other = key then some value else m.find? other := by
  by_cases h : other = key
  · rw [if_pos h, h, find?_insert_self]
  · rw [if_neg h, find?_insert_of_ne m value h]

/-- Of several writes under a key the last counts. -/
theorem SortedMap.find?_insertAll {α : Type} (m : SortedMap String α) (pairs : List (String × α))
    (key : String) :
    (m.insertAll pairs).find? key = (pairs.reverse.lookup key).or (m.find? key) := by
  induction pairs generalizing m with
  | nil => rfl
  | cons head rest ih =>
    show ((m.insert head.1 head.2).insertAll rest).find? key = _
    rw [ih, find?_insert, lookup_reverse_cons_or]

theorem SortedMap.find?_ofList {α : Type} (pairs : List (String × α)) (key : String) :
    (SortedMap.ofList pairs).find? key = pairs.reverse.lookup key := by
  rw [ofList, find?_insertAll]
  exact Option.or_none

/-- Every key written is there. -/
theorem SortedMap.mem_keys_ofList {α : Type} {pairs : List (String × α)} {key : String}
    (h : key ∈ pairs.map Prod.fst) : key ∈ (SortedMap.ofList pairs).keys := by
  have hreverse : key ∈ pairs.reverse.map Prod.fst := by
    rwa [List.map_reverse, List.mem_reverse]
  obtain ⟨value, hvalue, -⟩ := exists_lookup hreverse
  rw [mem_keys_iff]
  exact ⟨value, (find?_ofList pairs key).trans hvalue⟩

end FigureData
