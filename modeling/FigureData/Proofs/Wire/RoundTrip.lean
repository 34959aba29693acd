/-
  Values through canonical text and back.

  Canonical text keeps everything about a value but its doubles, which come back as they are
  spelled.  A value with other doubles is written like the value itself with those doubles in
  their place.  So what comes back is a value of the same form, and it is the value itself
  exactly when all of its doubles read back.

  Proved:
  * `exists_spelled`: finite doubles that are all spelled with a value are spelled as doubles.
  * `readBack?_eq_respell?`: canonical text keeps everything about a value but its doubles.
  * `readBack?_eq_decode?`: a value whose doubles read back is decoded from what it was encoded as.
  * `readBack?_eq_some_iff`: a value with finite doubles is read back exactly when they are.
-/
import FigureData.Proofs.Wire.Records

namespace FigureData.Wire

open Json

/-! ## Other doubles in their place -/

mutual

/-- Every double of a value replaced. -/
def mapFloats (f : Float → Float) : Wire → Wire
  | .float x => .float (f x)
  | .list items => .list (mapFloatsOfItems f items)
  | .record fields => .record (mapFloatsOfFields f fields)
  | .variant name content => .variant name (mapFloats f content)
  | w => w

def mapFloatsOfItems (f : Float → Float) : List Wire → List Wire
  | [] => []
  | w :: rest => mapFloats f w :: mapFloatsOfItems f rest

def mapFloatsOfFields (f : Float → Float) : List (String × Wire) → List (String × Wire)
  | [] => []
  | (name, w) :: rest => (name, mapFloats f w) :: mapFloatsOfFields f rest

end

variable (f : Float → Float)

theorem mapFloats_list (items : List Wire) :
    (list items).mapFloats f = .list (items.map (mapFloats f)) := by
  rw [mapFloats]
  congr 1
  induction items with
  | nil => rfl
  | cons w rest ih => rw [mapFloatsOfItems, ih, List.map_cons]

theorem mapFloats_record (fields : List (String × Wire)) :
    (record fields).mapFloats f = .record (fields.map fun e => (e.1, e.2.mapFloats f)) := by
  rw [mapFloats]
  congr 1
  induction fields with
  | nil => rfl
  | cons e rest ih => rw [mapFloatsOfFields, ih, List.map_cons]

/-- Values with other doubles are written like the values, the doubles in their place. -/
theorem mapFloats_list_map {f : Float → Float} {α : Type} {encode : α → Wire} {g : α → α}
    (h : ∀ x, encode (g x) = (encode x).mapFloats f) (items : List α) :
    (list (items.map encode)).mapFloats f = .list ((items.map g).map encode) := by
  rw [mapFloats_list, List.map_map, List.map_map]
  exact congrArg list (List.map_congr_left fun x _ => (h x).symm)

theorem mapFloats_list_self {f : Float → Float} {α : Type} (encode : α → Wire)
    (h : ∀ x, (encode x).mapFloats f = encode x) (items : List α) :
    (list (items.map encode)).mapFloats f = .list (items.map encode) := by
  have hself := mapFloats_list_map (g := id) (fun x => (h x).symm) items
  rwa [List.map_id] at hself

theorem mapFloats_texts (items : List String) : (texts items).mapFloats f = texts items :=
  mapFloats_list_self text (fun _ => rfl) items

theorem mapFloats_textMap (m : SortedMap String String) : (textMap m).mapFloats f = textMap m := by
  unfold textMap
  rw [mapFloats_record, List.map_map]
  rfl

mutual

theorem toJson_mapFloats (w : Wire) : (w.mapFloats f).toJson = w.toJson.mapFloats f := by
  match w with
  | .null => rfl
  | .bool b => rfl
  | .int n => rfl
  | .float x => rfl
  | .text s => rfl
  | .list items =>
    rw [mapFloats, toJson, toJson, Json.mapFloats, itemsToJson_mapFloats]
  | .record fields =>
    rw [mapFloats, toJson, toJson, Json.mapFloats, fieldsToJson_mapFloats]
  | .variant name content =>
    rw [mapFloats, toJson, toJson, Json.mapFloats, toJson_mapFloats]
    rfl

theorem itemsToJson_mapFloats (items : List Wire) :
    itemsToJson (mapFloatsOfItems f items) = Json.mapFloatsOfItems f (itemsToJson items) := by
  match items with
  | [] => rfl
  | w :: rest =>
    rw [mapFloatsOfItems, itemsToJson, itemsToJson, Json.mapFloatsOfItems, toJson_mapFloats,
      itemsToJson_mapFloats]

theorem fieldsToJson_mapFloats (fields : List (String × Wire)) :
    fieldsToJson (mapFloatsOfFields f fields) =
      Json.mapFloatsOfMembers f (fieldsToJson fields) := by
  match fields with
  | [] => rfl
  | (name, w) :: rest =>
    rw [mapFloatsOfFields, fieldsToJson, fieldsToJson, Json.mapFloatsOfMembers, toJson_mapFloats,
      fieldsToJson_mapFloats]

end

/-- A value with other doubles reads back as its document with those doubles. -/
theorem document_mapFloats (w : Wire) : (w.mapFloats f).document = w.document.mapFloats f := by
  rw [document, toJson_mapFloats, sorted_mapFloats, document]

/-! ## Reading back -/

/-- What the canonical text of a value is read as. -/
def readBack? {α : Type} (wanted : Selection) (decode? : Json → Option α) (w : Wire) : Option α :=
  (readSelected? wanted w.toJson.canonical).bind decode?

/-- Finite doubles that all spell a value spell doubles. -/
theorem exists_spelled {xs : List Float} (hfinite : ∀ x ∈ xs, x.isFinite = true)
    (hspelled : ∀ x ∈ xs, (spelled? x).isSome = true) :
    ∃ f : Float → Float, ∀ x ∈ xs, spelled? x = some (.float (f x)) := by
  have hdouble : ∀ x, ∃ y, x ∈ xs → spelled? x = some (.float y) := by
    intro x
    by_cases hx : x ∈ xs
    · obtain ⟨j, hj⟩ := Option.isSome_iff_exists.1 (hspelled x hx)
      obtain ⟨y, rfl⟩ := eq_float_of_spelled? (hfinite x hx) hj
      exact ⟨y, fun _ => hj⟩
    · exact ⟨x, fun h => absurd h hx⟩
  choose f hf using hdouble
  exact ⟨f, hf⟩

variable {α : Type} {wanted : Selection} {decode? : Json → Option α}

/-- Canonical text keeps everything about a value but its doubles. -/
theorem readBack?_eq_respell? {w : Wire} (hfits : Fits maxDepth w.toJson)
    (hcovers : wanted.Covers w.document) :
    readBack? wanted decode? w = w.document.respell?.bind decode? := by
  unfold readBack? document
  rw [readSelected?_respell hfits hcovers]

/-- A value whose doubles read back is decoded from what it was encoded as. -/
theorem readBack?_eq_decode? {w : Wire} (hfits : Fits maxDepth w.toJson)
    (hcovers : wanted.Covers w.document) (hfloats : ∀ x ∈ w.document.floats, ReadsBack x) :
    readBack? wanted decode? w = decode? w.document := by
  have hread := readSelected?_canonical hfits hfloats hcovers
  rw [readBack?, hread]
  rfl

/-- A value that stays the same whatever its doubles are replaced by has none. -/
theorem floats_of_mapFloats {w : Wire} (h : ∀ f, w.mapFloats f = w) : w.document.floats = [] := by
  have hfixed : ∀ f : Float → Float, ∀ x ∈ w.document.floats, f x = x := by
    intro f
    rw [← mapFloats_eq_self_iff, ← document_mapFloats, h]
  refine List.eq_nil_iff_forall_not_mem.2 fun x hx => ?_
  have hzero := hfixed (fun _ => 0.0) x hx
  have hone := hfixed (fun _ => 1.0) x hx
  exact absurd (hzero.trans hone.symm) (by decide +kernel)

/-- A value without doubles is decoded from what it was encoded as. -/
theorem readBack?_of_mapFloats {w : Wire} (hfits : Fits maxDepth w.toJson)
    (hcovers : wanted.Covers w.document) (h : ∀ f, w.mapFloats f = w) :
    readBack? wanted decode? w = decode? w.document := by
  refine readBack?_eq_decode? hfits hcovers ?_
  rw [floats_of_mapFloats h]
  exact nofun

/-- A value with finite doubles is read back exactly when its doubles read back, provided that
values with other doubles are decoded from what they are encoded as, too. -/
theorem readBack?_eq_some_iff {encode : α → Wire} {v : α} (hfits : Fits maxDepth (encode v).toJson)
    (hcovers : wanted.Covers (encode v).document)
    (hdecode : decode? (encode v).document = some v) {replace : (Float → Float) → α → α}
    (hreplace : ∀ f, encode (replace f v) = (encode v).mapFloats f)
    (hdecodes : ∀ f, decode? (encode (replace f v)).document = some (replace f v))
    (hfinite : ∀ x ∈ (encode v).document.floats, x.isFinite = true) :
    readBack? wanted decode? (encode v) = some v ↔
      ∀ x ∈ (encode v).document.floats, ReadsBack x := by
  constructor
  · intro hback
    rw [readBack?_eq_respell? hfits hcovers] at hback
    obtain ⟨j, hj, hvalue⟩ := Option.bind_eq_some_iff.1 hback
    obtain ⟨f, hf⟩ := exists_spelled hfinite
      (isSome_spelled? (Option.isSome_iff_exists.2 ⟨j, hj⟩))
    rw [respell?_eq_mapFloats hf, Option.some.injEq] at hj
    have hdocument : (encode (replace f v)).document = j := by
      rw [hreplace, document_mapFloats, hj]
    -- what was read is the value with its doubles as they are spelled, so these are its own
    have hsame : replace f v = v := by
      have hdecoded := hdecodes f
      rw [hdocument, hvalue, Option.some.injEq] at hdecoded
      exact hdecoded.symm
    rw [hsame, ← hj] at hdocument
    have hfixed := mapFloats_eq_self_iff.1 hdocument.symm
    intro x hx
    rw [readsBack_iff, hf x hx, hfixed x hx]
  · intro hfloats
    rw [readBack?_eq_decode? hfits hcovers hfloats, hdecode]

end FigureData.Wire
