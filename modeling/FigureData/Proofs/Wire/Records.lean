/-
  Records are read back field by field.

  Canonical text has the members of an object in ascending order, so a record that is read back
  is a sorted map from the names of its fields to their documents, whatever order the fields were
  written in.

  Proved:
  * `Wire.document_record`: what a record reads back as is a sorted map.
  * `Fields.read?_entries`: every field that is read gets the member with its name, if any.
  * `Fields.required_record`: so a field that was written is read from what was written for it.
  * `Json.tagged?_entries`: a record that names its variant is told apart from its other fields.
  * `Json.list?_texts`, `Json.floatMap?_document`, `Json.textMap?_document`: lists and maps are
    read back as they were.
-/
import FigureData.Proofs.Json.Finite
import FigureData.Proofs.Json.RoundTrip
import FigureData.Proofs.Outcome
import FigureData.Wire.Fields
import FigureData.Wire.Value
import Mathlib.Data.List.Basic

namespace FigureData

open Outcome

/-! ## Documents of values -/

namespace Wire

/-- The document that the canonical text of a value stands for. -/
def document (w : Wire) : Json := w.toJson.sorted

/-- What the fields of a record read back as. -/
def members (fields : List (String × Wire)) : SortedMap String Json :=
  SortedMap.ofList (fields.map fun f => (f.1, f.2.document))

theorem itemsToJson_eq (items : List Wire) : itemsToJson items = items.map toJson := by
  induction items with
  | nil => rfl
  | cons w rest ih => rw [itemsToJson, ih, List.map_cons]

theorem fieldsToJson_eq (fields : List (String × Wire)) :
    fieldsToJson fields = fields.map fun f => (f.1, f.2.toJson) := by
  induction fields with
  | nil => rfl
  | cons f rest ih => rw [fieldsToJson, ih, List.map_cons]

theorem document_list (items : List Wire) :
    (Wire.list items).document = .array (items.map document) := by
  unfold document
  rw [toJson, Json.sorted_array, itemsToJson_eq, List.map_map]
  rfl

/-- A record reads back as a sorted map. -/
theorem document_record (fields : List (String × Wire)) :
    (Wire.record fields).document = .object (members fields).entries := by
  unfold document members
  rw [toJson, Json.sorted_object, fieldsToJson_eq, Json.memberMap, List.map_map]
  rfl

/-- Of several fields with one name the last counts. -/
theorem find?_members (fields : List (String × Wire)) (name : String) :
    (members fields).find? name = (fields.reverse.lookup name).map document := by
  unfold members
  rw [SortedMap.ofList, SortedMap.find?_insertAll, ← List.map_reverse, lookup_map_snd]
  exact Option.or_none

/-- Fields of which some may have nothing to write. -/
def present (fields : List (String × Option Wire)) : List (String × Wire) :=
  fields.filterMap fun f => f.2.map fun w => (f.1, w)

theorem mem_present {fields : List (String × Option Wire)} {name : String} {w : Wire} :
    (name, w) ∈ present fields ↔ (name, some w) ∈ fields := by
  unfold present
  rw [List.mem_filterMap]
  constructor
  · rintro ⟨⟨key, value⟩, hf, he⟩
    obtain ⟨w', hw, he⟩ := Option.map_eq_some_iff.1 he
    cases he
    cases hw
    exact hf
  · intro h
    exact ⟨_, h, rfl⟩

/-- What holds of all fields holds of those that have something to write. -/
theorem forall_mem_present {fields : List (String × Option Wire)} {P : Wire → Prop}
    (h : ∀ f ∈ fields, ∀ w ∈ f.2, P w) : ∀ f ∈ present fields, P f.2 :=
  fun f hf => h (f.1, some f.2) (mem_present.1 hf) f.2 rfl

theorem forall_mem_optionalField {α : Type} {name : String} {encode : α → Wire} {value : Option α}
    {P : String × Wire → Prop} :
    (∀ f ∈ optionalField name encode value, P f) ↔ ∀ v ∈ value, P (name, encode v) := by
  cases value with
  | none => simp [optionalField]
  | some v => simp [optionalField]

theorem map_present (g : Wire → Wire) (fields : List (String × Option Wire)) :
    (present fields).map (fun f => (f.1, g f.2)) = present (fields.map fun f => (f.1, f.2.map g)) := by
  unfold present
  rw [List.map_filterMap, List.filterMap_map]
  congr 1
  funext f
  cases h : f.2 <;> simp [h]

theorem sublist_present (fields : List (String × Option Wire)) :
    List.Sublist ((present fields).map Prod.fst) (fields.map Prod.fst) := by
  induction fields with
  | nil => exact .slnil
  | cons f rest ih =>
    obtain ⟨name, value⟩ := f
    cases value with
    | none => exact ih.cons name
    | some w => exact ih.cons_cons name

/-- A field is found as it was given, if it has something to write. -/
theorem lookup_present {fields : List (String × Option Wire)} (h : (fields.map Prod.fst).Nodup)
    (name : String) : (present fields).reverse.lookup name = (fields.lookup name).join := by
  have hnodup : ((present fields).reverse.map Prod.fst).Nodup := by
    rw [List.map_reverse, List.nodup_reverse]
    exact (sublist_present fields).nodup h
  refine Option.ext fun w => ?_
  rw [lookup_eq_some_iff hnodup, List.mem_reverse, mem_present, ← lookup_eq_some_iff h,
    Option.join_eq_some_iff]

end Wire

/-! ## Text of values -/

namespace Json

theorem fits_list {room : Nat} {items : List Wire} (h : ∀ w ∈ items, Fits room w.toJson) :
    Fits (room + 1) (Wire.list items).toJson := by
  rw [Wire.toJson, Wire.itemsToJson_eq]
  exact .array (List.forall_mem_map.2 h)

theorem fits_record {room : Nat} {fields : List (String × Wire)}
    (h : ∀ f ∈ fields, Fits room f.2.toJson) :
    Fits (room + 1) (Wire.record fields).toJson := by
  rw [Wire.toJson, Wire.fieldsToJson_eq]
  exact .object (List.forall_mem_map.2 h)

/-- Every member of a record that is read back is one of its fields. -/
theorem mem_members {fields : List (String × Wire)} {m : String × Json}
    (h : m ∈ (Wire.members fields).entries) : ∃ f ∈ fields, (f.1, f.2.document) = m := by
  rcases SortedMap.mem_insertAll h with h | h
  · cases h
  · exact List.mem_map.1 h

/-- What holds of the doubles of all fields holds of the doubles of the record. -/
theorem forall_floats_record {fields : List (String × Wire)} {P : Float → Prop}
    (h : ∀ f ∈ fields, ∀ x ∈ f.2.document.floats, P x) :
    ∀ x ∈ (Wire.record fields).document.floats, P x := by
  intro x hx
  rw [Wire.document_record] at hx
  obtain ⟨m, hm, hx⟩ := mem_floats_object.1 hx
  obtain ⟨f, hf, rfl⟩ := mem_members hm
  exact h f hf x hx

theorem mem_floats_list {α : Type} {encode : α → Wire} {items : List α} {x : Float} :
    x ∈ (Wire.list (items.map encode)).document.floats ↔
      ∃ v ∈ items, x ∈ (encode v).document.floats := by
  rw [Wire.document_list, mem_floats_array]
  simp only [List.mem_map, exists_exists_and_eq_and]

/-- The doubles of a field are doubles of the record. -/
theorem mem_floats_of_lookup {fields : List (String × Wire)} (name : String) {w : Wire}
    (hw : fields.reverse.lookup name = some w) {x : Float} (hx : x ∈ w.document.floats) :
    x ∈ (Wire.record fields).document.floats := by
  have hfind : (Wire.members fields).find? name = some w.document := by
    rw [Wire.find?_members, hw, Option.map_some]
  rw [Wire.document_record]
  exact mem_floats_object.2 ⟨(name, w.document), mem_of_entryAt? hfind, hx⟩

/-- A record is wanted as a whole when all its fields are. -/
theorem covers_record {wanted : List (String × Selection)} {fields : List (String × Wire)}
    (h : ∀ f ∈ fields, ∃ s, wanted.lookup f.1 = some s ∧ s.Covers f.2.document) :
    (Selection.fields wanted).Covers (Wire.record fields).document := by
  rw [Wire.document_record]
  refine covers_object fun m hm => ?_
  obtain ⟨f, hf, rfl⟩ := mem_members hm
  exact h f hf

end Json

/-! ## Fields -/

/-- What a member of an object is for a field. -/
def Slot.ofMember : Option Json → Slot
  | some j => .present j
  | none => .absent

namespace Fields

/-- The fields of an object whose members are sorted. -/
def ofMembers (names : List String) (m : SortedMap String Json) : Fields :=
  ⟨names.map fun name => (name, .ofMember (m.find? name))⟩

/-- Every field that is read gets the member with its name, if any. -/
theorem read?_entries (names : List String) (m : SortedMap String Json) :
    read? names (.object m.entries) = some (ofMembers names m) := by
  have hslots : ofMembers? m.entries names = some (ofMembers names m).slots := by
    unfold ofMembers
    induction names with
    | nil => rfl
    | cons name rest ih =>
      unfold ofMembers?
      rw [filter_key_of_sorted m.sorted, ih, List.map_cons]
      show _ = some ((name, Slot.ofMember (entryAt? name m.entries)) :: _)
      cases entryAt? name m.entries with
      | none => rfl
      | some j => rfl
  show (ofMembers? m.entries names).map mk = _
  rw [hslots]
  rfl

theorem slot_ofMembers {names : List String} {name : String} (h : name ∈ names)
    (m : SortedMap String Json) : (ofMembers names m).slot name = .ofMember (m.find? name) := by
  unfold slot ofMembers
  rw [List.lookup_graph _ h]
  rfl

variable {α : Type} {names : List String} {fields : List (String × Wire)} {name : String}

theorem required_ofMembers (h : name ∈ names) {m : SortedMap String Json} {j : Json}
    (hj : m.find? name = some j) (read : Json → Option α) :
    (ofMembers names m).required name read = read j := by
  unfold required
  rw [slot_ofMembers h, hj]
  rfl

/-- A field that was written is read from what was written for it. -/
theorem required_record (h : name ∈ names) {w : Wire} (hw : fields.reverse.lookup name = some w)
    (read : Json → Option α) :
    (ofMembers names (Wire.members fields)).required name read = read w.document :=
  required_ofMembers h (by rw [Wire.find?_members, hw, Option.map_some]) read

theorem defaulted_record (h : name ∈ names) {w : Wire} (hw : fields.reverse.lookup name = some w)
    (read : Json → Option α) (default : α) :
    (ofMembers names (Wire.members fields)).defaulted name read default = read w.document := by
  unfold defaulted
  rw [slot_ofMembers h, Wire.find?_members, hw, Option.map_some]
  rfl

/-- A field that was left out is read as nothing. -/
theorem optional_record_absent (h : name ∈ names) (hnone : fields.reverse.lookup name = none)
    (read : Json → Option α) :
    (ofMembers names (Wire.members fields)).optional name read = some none := by
  unfold optional
  rw [slot_ofMembers h, Wire.find?_members, hnone]
  rfl

/-- An optional field that was written is read, unless null was written for it. -/
theorem optional_record (h : name ∈ names) {w : Wire} (hw : fields.reverse.lookup name = some w)
    (hnull : w.document ≠ .null) (read : Json → Option α) :
    (ofMembers names (Wire.members fields)).optional name read =
      (read w.document).map some := by
  unfold optional
  rw [slot_ofMembers h, Wire.find?_members, hw, Option.map_some]
  cases hdocument : w.document with
  | null => exact absurd hdocument hnull
  | _ => rfl

section Present

variable {fields : List (String × Option Wire)} (hnodup : (fields.map Prod.fst).Nodup)

include hnodup

theorem required_present (h : name ∈ names) {w : Wire} (hw : fields.lookup name = some (some w))
    (read : Json → Option α) :
    (ofMembers names (Wire.members (Wire.present fields))).required name read =
      read w.document :=
  required_record h (by rw [Wire.lookup_present hnodup, hw, Option.join_some]) read

/-- A field that may have nothing to write is read as it was, unless null is written for it. -/
theorem optional_present (h : name ∈ names) {value : Option α} {encode : α → Wire}
    (hw : fields.lookup name = some (value.map encode)) {read : Json → Option α}
    (hread : ∀ x, read (encode x).document = some x)
    (hnull : ∀ x, (encode x).document ≠ .null) :
    (ofMembers names (Wire.members (Wire.present fields))).optional name read = some value := by
  have hlookup : (Wire.present fields).reverse.lookup name = value.map encode := by
    rw [Wire.lookup_present hnodup, hw, Option.join_some]
  cases value with
  | none => exact optional_record_absent h hlookup read
  | some x => rw [optional_record h hlookup (hnull x), hread, Option.map_some]

end Present

/-- Null is read as nothing. -/
theorem optional_null (h : name ∈ names) (hw : fields.reverse.lookup name = some .null)
    (read : Json → Option α) :
    (ofMembers names (Wire.members fields)).optional name read = some none := by
  unfold optional
  rw [slot_ofMembers h, Wire.find?_members, hw]
  rfl

/-- An object does not end before a field. -/
theorem optionalOrBeyond_ofMembers (h : name ∈ names) (m : SortedMap String Json)
    (read : Json → Option α) :
    (ofMembers names m).optionalOrBeyond name read = (ofMembers names m).optional name read := by
  unfold optionalOrBeyond optional
  rw [slot_ofMembers h]
  cases m.find? name with
  | none => rfl
  | some j => cases j <;> rfl

end Fields

/-! ## Fields of finite documents -/

namespace Fields

/-- All numbers that the fields have are finite. -/
def IsFinite (fields : Fields) : Prop :=
  ∀ slot ∈ fields.slots, ∀ j, slot.2 = .present j → j.IsFinite

theorem isFinite_ofMembers? {members : List (String × Json)} (h : ∀ m ∈ members, m.2.IsFinite)
    {names : List String} {slots : List (String × Slot)}
    (hslots : ofMembers? members names = some slots) : IsFinite ⟨slots⟩ := by
  induction names generalizing slots with
  | nil =>
    cases hslots
    exact nofun
  | cons name rest ih =>
    unfold ofMembers? at hslots
    split at hslots
    · obtain ⟨more, hmore, rfl⟩ := Option.map_eq_some_iff.1 hslots
      exact List.forall_mem_cons.2 ⟨nofun, ih hmore⟩
    next m hm =>
      obtain ⟨more, hmore, rfl⟩ := Option.map_eq_some_iff.1 hslots
      have hmem : m ∈ members := List.mem_of_mem_filter (hm ▸ List.mem_singleton_self m)
      refine List.forall_mem_cons.2 ⟨?_, ih hmore⟩
      intro j hj
      cases hj
      exact h m hmem
    · cases hslots

theorem isFinite_ofItems? {items : List Json} (h : ∀ j ∈ items, j.IsFinite) {names : List String}
    {slots : List (String × Slot)} (hslots : ofItems? items names = some slots) :
    IsFinite ⟨slots⟩ := by
  induction items generalizing names slots with
  | nil =>
    cases hslots
    intro slot hslot j hj
    obtain ⟨name, -, rfl⟩ := List.mem_map.1 hslot
    cases hj
  | cons j more ih =>
    rw [List.forall_mem_cons] at h
    cases names with
    | nil => cases hslots
    | cons name rest =>
      obtain ⟨others, hothers, rfl⟩ := Option.map_eq_some_iff.1 hslots
      refine List.forall_mem_cons.2 ⟨?_, ih h.2 hothers⟩
      intro j' hj
      cases hj
      exact h.1

/-- The fields of a finite document are finite. -/
theorem isFinite_read? {j : Json} (hj : j.IsFinite) {names : List String} {fields : Fields}
    (h : read? names j = some fields) : fields.IsFinite := by
  cases hj with
  | array hitems =>
    obtain ⟨slots, hslots, rfl⟩ := Option.map_eq_some_iff.1 h
    exact isFinite_ofItems? hitems hslots
  | object hmembers =>
    obtain ⟨slots, hslots, rfl⟩ := Option.map_eq_some_iff.1 h
    exact isFinite_ofMembers? hmembers hslots
  | _ => cases h

variable {fields : Fields} {name : String} {α : Type} {read : Json → Option α} {x : α}

theorem IsFinite.of_slot (h : fields.IsFinite) {j : Json} (hslot : fields.slot name = .present j) :
    j.IsFinite := by
  unfold slot at hslot
  cases hlookup : fields.slots.lookup name with
  | none =>
    rw [hlookup] at hslot
    cases hslot
  | some value =>
    rw [hlookup] at hslot
    obtain ⟨front, back, hsplit, -⟩ := List.lookup_eq_some_iff.1 hlookup
    refine h (name, value) ?_ j hslot
    rw [hsplit]
    exact List.mem_append_right _ (List.mem_cons_self ..)

/-- A field that has a value was present. -/
theorem slot_of_required (hx : fields.required name read = some x) :
    ∃ j, fields.slot name = .present j ∧ read j = some x := by
  unfold required at hx
  split at hx
  next j hslot => exact ⟨j, hslot, hx⟩
  next => cases hx

theorem IsFinite.of_required (h : fields.IsFinite) (hx : fields.required name read = some x) :
    ∃ j, j.IsFinite ∧ read j = some x := by
  obtain ⟨j, hslot, hread⟩ := slot_of_required hx
  exact ⟨j, h.of_slot hslot, hread⟩

theorem IsFinite.of_optional (h : fields.IsFinite)
    (hx : fields.optional name read = some (some x)) : ∃ j, j.IsFinite ∧ read j = some x := by
  unfold optional at hx
  split at hx
  next => cases hx
  next j _ hslot =>
    obtain ⟨y, hy, he⟩ := Option.map_eq_some_iff.1 hx
    cases he
    exact ⟨j, h.of_slot hslot, hy⟩
  next => cases hx
  next => cases hx

end Fields

/-! ## Variants, lists and maps -/

namespace Json

/-- A record that names its variant is told apart from its other fields. -/
theorem tagged?_entries {m : SortedMap String Json} {tag name : String}
    (h : m.find? tag = some (.string name)) :
    tagged? tag (.object m.entries) =
      some (name, .object (m.filterKeys fun key => key ≠ tag).entries) := by
  have htag : entryAt? tag m.entries = some (.string name) := h
  simp only [tagged?, filter_key_of_sorted m.sorted, htag]
  rfl

/-- A list is read back when its items are. -/
theorem list?_encode {α : Type} {encode : α → Wire} {read : Json → Option α}
    (h : ∀ x, read (encode x).document = some x) (items : List α) :
    list? read (Wire.list (items.map encode)).document = some items := by
  rw [Wire.document_list, List.map_map]
  exact mapM_map_eq_some fun x _ => h x

theorem list?_texts (items : List String) :
    list? text? (Wire.texts items).document = some items :=
  list?_encode (fun _ => rfl) items

/-- The entries of a map are read back in the order they stand. -/
theorem mapM_members {α : Type} (encode : α → Wire) {read : Json → Option α}
    (h : ∀ x, read (encode x).document = some x) (m : SortedMap String α) :
    ((Wire.members (m.entries.map fun e => (e.1, encode e.2))).entries.mapM
      fun e => (read e.2).map fun x => (e.1, x)) = some m.entries := by
  have hsorted : EntriesSorted (m.entries.map fun e => (e.1, (encode e.2).document)) :=
    List.pairwise_map.2 m.sorted
  have hmembers : (Wire.members (m.entries.map fun e => (e.1, encode e.2))).entries =
      m.entries.map fun e => (e.1, (encode e.2).document) := by
    unfold Wire.members
    rw [List.map_map]
    exact SortedMap.insertAll_of_sorted (m := (SortedMap.empty : SortedMap String Json)) hsorted
  rw [hmembers]
  refine mapM_map_eq_some fun e _ => ?_
  rw [h]
  rfl

/-- A map of doubles is read back. -/
theorem floatMap?_document (m : SortedMap String Float) :
    floatMap? (Wire.floatMap m).document = some m := by
  unfold Wire.floatMap
  rw [Wire.document_record]
  show Option.map SortedMap.ofList _ = _
  rw [mapM_members Wire.float fun _ => rfl, Option.map_some,
    SortedMap.ofList_entries]

/-- A map of texts is read back. -/
theorem textMap?_document (m : SortedMap String String) :
    textMap? (Wire.textMap m).document = some m := by
  unfold Wire.textMap
  rw [Wire.document_record]
  show Option.map SortedMap.ofList _ = _
  rw [mapM_members Wire.text fun _ => rfl, Option.map_some, SortedMap.ofList_entries]

/-- The doubles of a map that is read from a finite document are finite. -/
theorem isFinite_floatMap? {j : Json} (hj : j.IsFinite) {m : SortedMap String Float}
    (h : floatMap? j = some m) : ∀ x ∈ m.values, x.isFinite = true := by
  cases hj with
  | object hmembers =>
    obtain ⟨pairs, hpairs, rfl⟩ := Option.map_eq_some_iff.1 h
    intro x hx
    obtain ⟨e, he, rfl⟩ := List.mem_map.1 hx
    rcases SortedMap.mem_insertAll he with he | he
    · cases he
    · obtain ⟨member, hmember, hread⟩ := mem_of_mapM hpairs he
      obtain ⟨y, hy, rfl⟩ := Option.map_eq_some_iff.1 hread
      exact (hmembers member hmember).number? hy
  | _ => cases h

theorem isFinite_tagged? {j content : Json} (hj : j.IsFinite) {tag name : String}
    (h : tagged? tag j = some (name, content)) : content.IsFinite := by
  unfold tagged? at h
  split at h
  next members =>
    split at h
    · cases h
      cases hj with
      | object hmembers =>
        exact .object fun m hm => hmembers m (List.mem_of_mem_filter hm)
    · cases h
  next first rest =>
    cases h
    cases hj with
    | array hitems => exact .array (List.forall_mem_cons.1 hitems).2
  next => cases h

theorem count?_lt {bits n : Nat} {j : Json} (h : count? bits j = some n) : n < 2 ^ bits := by
  unfold count? at h
  split at h
  · split at h
    next hn =>
      cases h
      exact hn.2
    next => cases h
  · cases h

end Json

end FigureData
