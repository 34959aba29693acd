/-
  Values that are written as JSON text and read back.

  Proved, for each kind of value:
  * `decode?_encode`: what is written for a value is read as that value.
  * `fits_encode`, `covers_document`: it fits in a text, and every field that is written is wanted.
  * `mapFloats_encode`: it has no doubles, or `mem_floats`: it has these.
-/
import FigureData.Config
import FigureData.Dataset.Cell
import FigureData.Proofs.Wire.RoundTrip
import FigureData.Provenance
import FigureData.Wire.Branch
import FigureData.Wire.Fault

namespace FigureData

open Json

/-! ## Counts -/

theorem count?_document {bits n : Nat} (h : n < 2 ^ bits) :
    count? bits (Wire.count n).document = some n := by
  show (if 0 ≤ (n : Int) ∧ (n : Int).toNat < 2 ^ bits then some (n : Int).toNat else none) = _
  rw [Int.toNat_natCast, if_pos ⟨Int.natCast_nonneg n, h⟩]

theorem fits_count {n : Nat} (h : n < 2 ^ 64) (room : Nat) : Fits room (Wire.count n).toJson :=
  .int room (by omega) (by exact_mod_cast h)

/-! ## Circumstances of a run -/

theorem LayoutVersion.decode?_encode (v : LayoutVersion) :
    decode? v.encode.document = some v := by
  unfold decode? encode
  rw [Wire.document_record, Fields.read?_entries]
  simp only [Option.bind_eq_bind, Option.bind_some, Option.pure_def]
  rw [Fields.required_record (by decide) rfl, Fields.required_record (by decide) rfl,
    count?_document v.major.toNat_lt, count?_document v.minor.toNat_lt]
  simp

theorem Provenance.decode?_encode {p : Provenance} (hinput : p.inputFiles < 2 ^ 64)
    (hdropped : p.droppedEntities < 2 ^ 64) : decode? p.encode.document = some p := by
  unfold decode? encode
  rw [Wire.document_record, Fields.read?_entries]
  simp only [Option.bind_eq_bind, Option.bind_some, Option.pure_def]
  rw [Fields.required_record (by decide) rfl, Fields.required_record (by decide) rfl,
    Fields.required_record (by decide) rfl, Fields.required_record (by decide) rfl,
    Fields.required_record (by decide) rfl, Fields.required_record (by decide) rfl,
    Fields.required_record (by decide) rfl, Fields.required_record (by decide) rfl,
    count?_document hinput, count?_document hdropped, LayoutVersion.decode?_encode,
    textMap?_document]
  rfl

theorem Provenance.counts_of_decode? {j : Json} {p : Provenance} (h : decode? j = some p) :
    p.inputFiles < 2 ^ 64 ∧ p.droppedEntities < 2 ^ 64 := by
  unfold decode? at h
  obtain ⟨fields, -, h⟩ := Option.bind_eq_some_iff.1 h
  obtain ⟨evaluation, -, h⟩ := Option.bind_eq_some_iff.1 h
  obtain ⟨source, -, h⟩ := Option.bind_eq_some_iff.1 h
  obtain ⟨inputFiles, hinput, h⟩ := Option.bind_eq_some_iff.1 h
  obtain ⟨droppedEntities, hdropped, h⟩ := Option.bind_eq_some_iff.1 h
  obtain ⟨datasetHash, -, h⟩ := Option.bind_eq_some_iff.1 h
  obtain ⟨layout, -, h⟩ := Option.bind_eq_some_iff.1 h
  obtain ⟨createdAt, -, h⟩ := Option.bind_eq_some_iff.1 h
  obtain ⟨toolVersions, -, h⟩ := Option.bind_eq_some_iff.1 h
  cases h
  obtain ⟨jinput, -, hinput⟩ := Fields.slot_of_required hinput
  obtain ⟨jdropped, -, hdropped⟩ := Fields.slot_of_required hdropped
  exact ⟨count?_lt hinput, count?_lt hdropped⟩

namespace Provenance

theorem fits_encode {room : Nat} {p : Provenance} (hinput : p.inputFiles < 2 ^ 64)
    (hdropped : p.droppedEntities < 2 ^ 64) : Fits (room + 2) p.encode.toJson := by
  have hmajor : p.layout.major.toNat < 2 ^ 64 := p.layout.major.toNat_lt.trans (by decide)
  have hminor : p.layout.minor.toNat < 2 ^ 64 := p.layout.minor.toNat_lt.trans (by decide)
  have hlayout : Fits (room + 1) p.layout.encode.toJson := by
    apply fits_record
    simp only [List.forall_mem_cons]
    exact ⟨fits_count hmajor room, fits_count hminor room, by simp⟩
  have hversions : Fits (room + 1) (Wire.textMap p.toolVersions).toJson :=
    fits_record (List.forall_mem_map.2 fun e _ => .string room e.2)
  apply fits_record
  simp only [List.forall_mem_cons]
  exact ⟨.string _ _, .string _ _, fits_count hinput _, fits_count hdropped _,
    .string _ _, hlayout, .string _ _, hversions, by simp⟩

/-- Every field that is written is wanted. -/
theorem covers_document (p : Provenance) : wanted.Covers p.encode.document := by
  have hlayout : LayoutVersion.wanted.Covers p.layout.encode.document := by
    apply covers_record
    simp only [List.forall_mem_cons]
    exact ⟨⟨_, rfl, .all _⟩, ⟨_, rfl, .all _⟩, by simp⟩
  apply covers_record
  simp only [List.forall_mem_cons]
  exact ⟨⟨_, rfl, .all _⟩, ⟨_, rfl, .all _⟩, ⟨_, rfl, .all _⟩, ⟨_, rfl, .all _⟩,
    ⟨_, rfl, .all _⟩, ⟨_, rfl, hlayout⟩, ⟨_, rfl, .all _⟩, ⟨_, rfl, .all _⟩, by simp⟩

theorem mapFloats_encode (f : Float → Float) (p : Provenance) :
    p.encode.mapFloats f = p.encode := by
  unfold encode
  rw [Wire.mapFloats_record]
  simp only [List.map_cons, List.map_nil, Wire.mapFloats_textMap]
  rfl

/-- The circumstances of a run are read back. -/
theorem readBack?_eq {p : Provenance} (hinput : p.inputFiles < 2 ^ 64)
    (hdropped : p.droppedEntities < 2 ^ 64) :
    Wire.readBack? wanted decode? p.encode = some p := by
  have hfits : Fits maxDepth p.encode.toJson := fits_encode hinput hdropped
  rw [Wire.readBack?_of_mapFloats hfits p.covers_document fun f => p.mapFloats_encode f,
    decode?_encode hinput hdropped]

end Provenance

/-! ## Drawings of curves -/

theorem CurveBranch.decode?_encode (b : CurveBranch) : decode? b.encode.document = some b := by
  cases b with
  | bounded =>
    unfold decode? encode
    rw [Wire.document_record, tagged?_entries (Wire.find?_members _ _)]
    rfl
  | withOutliers maxRatio fraction =>
    unfold decode? encode
    rw [Wire.document_record, tagged?_entries (Wire.find?_members _ _)]
    have hfield : ∀ name x, name ≠ "branch" →
        (Wire.members [("branch", .text "with-outliers"), ("max_ratio", .float maxRatio),
          ("fraction_less_equal_one", .float fraction)]).find? name = some (.float x) →
        ((Wire.members [("branch", .text "with-outliers"), ("max_ratio", .float maxRatio),
          ("fraction_less_equal_one", .float fraction)]).filterKeys
            fun key => key ≠ "branch").find? name = some (.float x) := by
      intro name x hname hfind
      rw [SortedMap.find?_filterKeys, if_pos (decide_eq_true hname), hfind]
    simp only [Option.bind_eq_bind, Option.bind_some, Option.pure_def]
    rw [Fields.read?_entries, Option.bind_some,
      Fields.required_ofMembers (by decide) (hfield "max_ratio" maxRatio (by decide)
        (Wire.find?_members _ _)),
      Fields.required_ofMembers (by decide) (hfield "fraction_less_equal_one" fraction (by decide)
        (Wire.find?_members _ _))]
    rfl

/-- The doubles that a drawing needs. -/
def CurveBranch.numbers : CurveBranch → List Float
  | .bounded => []
  | .withOutliers maxRatio fraction => [maxRatio, fraction]

theorem CurveBranch.fits_encode (room : Nat) (b : CurveBranch) : Fits (room + 1) b.encode.toJson := by
  cases b with
  | bounded =>
    refine fits_record fun f hf => ?_
    rw [List.mem_singleton.1 hf]
    exact .string room _
  | withOutliers maxRatio fraction =>
    apply fits_record
    simp only [List.forall_mem_cons]
    exact ⟨.string room _, .float room maxRatio, .float room fraction, by simp⟩

theorem CurveBranch.mem_floats {b : CurveBranch} {x : Float} :
    x ∈ b.encode.document.floats ↔ x ∈ b.numbers := by
  cases b with
  | bounded => exact Iff.rfl
  | withOutliers maxRatio fraction =>
    -- the fields come back in the order of their names
    have hfloats : (withOutliers maxRatio fraction).encode.document.floats =
        [fraction, maxRatio] := rfl
    rw [hfloats]
    exact (List.Perm.swap maxRatio fraction []).mem_iff

/-- The drawing with other doubles. -/
def CurveBranch.mapFloats (f : Float → Float) : CurveBranch → CurveBranch
  | .bounded => .bounded
  | .withOutliers maxRatio fraction => .withOutliers (f maxRatio) (f fraction)

theorem CurveBranch.encode_mapFloats (f : Float → Float) (b : CurveBranch) :
    (b.mapFloats f).encode = b.encode.mapFloats f := by
  cases b with
  | bounded | withOutliers => rfl

/-- A drawing with finite doubles is read back exactly when they are. -/
theorem CurveBranch.readBack?_iff {b : CurveBranch} (h : ∀ x ∈ b.numbers, x.isFinite = true) :
    Wire.readBack? .all decode? b.encode = some b ↔ ∀ x ∈ b.numbers, ReadsBack x := by
  simp only [← mem_floats] at h ⊢
  exact Wire.readBack?_eq_some_iff (b.fits_encode 126) (.all _) b.decode?_encode
    (fun f => b.encode_mapFloats f) (fun f => decode?_encode _) h

/-! ## Cells -/

namespace Cell

/-- The doubles of a cell. -/
def numbers : Cell → List Float
  | .number x => [x]
  | _ => []

theorem decode?_encode (c : Cell) : decode? c.encode.document = some c := by
  cases c with
  | text | number | missing => rfl

theorem fits_encode (room : Nat) (c : Cell) : Fits (room + 1) c.encode.toJson := by
  cases c with
  | text s =>
    apply fits_record
    simp only [List.forall_mem_cons]
    exact ⟨.string _ _, .string _ _, by simp⟩
  | number x =>
    apply fits_record
    simp only [List.forall_mem_cons]
    exact ⟨.string _ _, .float _ _, by simp⟩
  | missing =>
    apply fits_record
    simp only [List.forall_mem_cons]
    exact ⟨.string _ _, by simp⟩

/-- The kind stands before the value, so both are wanted as a whole. -/
theorem covers_document (c : Cell) : wanted.Covers c.encode.document := by
  cases c with
  | text s =>
    show wanted.Covers (.object [("kind", .string "text"), ("value", .string s)])
    refine covers_of_tag_first (covers_object ?_)
    simp only [List.forall_mem_cons]
    exact ⟨⟨_, rfl, .all _⟩, ⟨_, rfl, .all _⟩, by simp⟩
  | number x =>
    show wanted.Covers (.object [("kind", .string "number"), ("value", .float x)])
    refine covers_of_tag_first (covers_object ?_)
    simp only [List.forall_mem_cons]
    exact ⟨⟨_, rfl, .all _⟩, ⟨_, rfl, .all _⟩, by simp⟩
  | missing =>
    show wanted.Covers (.object [("kind", .string "missing")])
    refine covers_of_tag_first (covers_object ?_)
    exact List.forall_mem_singleton.2 ⟨_, rfl, .all _⟩

theorem mem_floats {c : Cell} {x : Float} : x ∈ c.encode.document.floats ↔ x ∈ c.numbers := by
  cases c with
  | text | number | missing => exact Iff.rfl

/-- The cell with another number. -/
def mapFloats (f : Float → Float) : Cell → Cell
  | .number x => .number (f x)
  | c => c

theorem encode_mapFloats (f : Float → Float) (c : Cell) :
    (c.mapFloats f).encode = c.encode.mapFloats f := by
  cases c with
  | text | number | missing => rfl

/-- A cell whose number is finite is read back exactly when its number is. -/
theorem readBack?_iff {c : Cell} (h : ∀ x ∈ c.numbers, x.isFinite = true) :
    Wire.readBack? wanted decode? c.encode = some c ↔ ∀ x ∈ c.numbers, ReadsBack x := by
  simp only [← mem_floats] at h ⊢
  exact Wire.readBack?_eq_some_iff (c.fits_encode 126) c.covers_document c.decode?_encode
    (fun f => c.encode_mapFloats f) (fun f => decode?_encode _) h

end Cell

/-! ## Faults -/

namespace Fault

/-- The fields of a fault beside its family. -/
theorem decodeDetail?_encodeDetail (f : Fault) :
    decodeDetail? f.family f.encodeDetail.document = some f := by
  unfold decodeDetail? encodeDetail
  rw [Wire.document_record, Fields.read?_entries]
  simp only [Option.bind_eq_bind, Option.bind_some, Option.pure_def]
  cases hhint : f.hint with
  | none =>
    rw [Fields.required_record (by decide) rfl, Fields.required_record (by decide) rfl,
      Fields.defaulted_record (by decide) rfl, Fields.optional_record_absent (by decide) rfl,
      textMap?_document]
    show some { f with hint := none } = _
    rw [← hhint]
  | some hint =>
    rw [Fields.required_record (by decide) rfl, Fields.required_record (by decide) rfl,
      Fields.defaulted_record (by decide) rfl, Fields.optional_record (by decide) rfl ?_,
      textMap?_document]
    · show some { f with hint := some hint } = _
      rw [← hhint]
    · exact nofun

theorem decode?_encode (f : Fault) : decode? f.encode.document = some f := by
  have hparts : f.encode.document.adjacent? "family" "detail" =
      some (f.family.name, some f.encodeDetail.document) := rfl
  rw [decode?, hparts]
  show (Family.ofName? f.family.name).bind _ = _
  rw [Family.ofName?_name, Option.bind_some, decodeDetail?_encodeDetail]

theorem fits_encode (room : Nat) (f : Fault) : Fits (room + 3) f.encode.toJson := by
  have hcontext : Fits (room + 1) (Wire.textMap f.context).toJson :=
    fits_record (List.forall_mem_map.2 fun e _ => .string room e.2)
  have hhint : ∀ field ∈ Wire.optionalField "hint" .text f.hint, Fits (room + 1) field.2.toJson :=
    Wire.forall_mem_optionalField.2 fun hint _ => .string _ hint
  have hdetail : Fits (room + 2) f.encodeDetail.toJson := by
    apply fits_record
    simp only [List.forall_mem_append, List.forall_mem_cons]
    exact ⟨⟨.string _ _, .string _ _, hcontext, by simp⟩, hhint⟩
  apply fits_record
  simp only [List.forall_mem_cons]
  exact ⟨.string _ _, hdetail, by simp⟩

/-- The details stand before the family, so they are wanted as a whole. -/
theorem covers_document (f : Fault) : wanted.Covers f.encode.document := by
  show wanted.Covers (.object [("detail", f.encodeDetail.document), ("family", .string f.family.name)])
  refine covers_of_content_first (by decide) (covers_object ?_)
  simp only [List.forall_mem_cons]
  exact ⟨⟨_, rfl, .all _⟩, ⟨_, rfl, .all _⟩, by simp⟩

theorem mapFloats_encode (f : Float → Float) (fault : Fault) :
    fault.encode.mapFloats f = fault.encode := by
  have hdetail : fault.encodeDetail.mapFloats f = fault.encodeDetail := by
    unfold encodeDetail
    rw [Wire.mapFloats_record, List.map_append]
    simp only [List.map_cons, List.map_nil, Wire.mapFloats_textMap]
    cases fault.hint <;> rfl
  unfold encode
  rw [Wire.mapFloats_record]
  simp only [List.map_cons, List.map_nil, hdetail]
  rfl

/-- A fault is read back. -/
theorem readBack?_eq (f : Fault) : Wire.readBack? wanted decode? f.encode = some f := by
  rw [Wire.readBack?_of_mapFloats (f.fits_encode 124) f.covers_document
    fun g => f.mapFloats_encode g, decode?_encode]

end Fault

/-! ## Configurations -/

namespace OutputForm

variable {o : OutputForm}

theorem decode?_encode (h : ∀ n ∈ o.precision, n < 2 ^ 64) :
    decode? o.encode.document = some o := by
  have hchar : char? (Wire.text (String.singleton o.delimiter)).document = some o.delimiter := by
    have htext : ∀ text : String, text? (Wire.text text).document = some text := fun _ => rfl
    unfold char?
    rw [htext, Option.map_some, String.toList_singleton]
  unfold decode? encode
  rw [Wire.document_record, Fields.read?_entries]
  simp only [Option.bind_eq_bind, Option.bind_some, Option.pure_def]
  rw [Fields.defaulted_record (by decide) rfl, hchar,
    Fields.optionalOrBeyond_ofMembers (by decide)]
  cases hprecision : o.precision with
  | none =>
    rw [Fields.optional_null (by decide) rfl]
    show some { o with precision := none } = _
    rw [← hprecision]
  | some n =>
    rw [Fields.optional_record (by decide) rfl ?_, count?_document (h n hprecision)]
    · show some { o with precision := some n } = _
      rw [← hprecision]
    · exact nofun

theorem fits_encode (h : ∀ n ∈ o.precision, n < 2 ^ 64) (room : Nat) :
    Fits (room + 1) o.encode.toJson := by
  apply fits_record
  simp only [List.forall_mem_cons]
  refine ⟨.string _ _, ?_, by simp⟩
  cases hprecision : o.precision with
  | none => exact .null _
  | some n => exact fits_count (h n hprecision) _

theorem covers_document (o : OutputForm) : wanted.Covers o.encode.document := by
  apply covers_record
  simp only [List.forall_mem_cons]
  exact ⟨⟨_, rfl, .all _⟩, ⟨_, rfl, .all _⟩, by simp⟩

theorem mapFloats_encode (f : Float → Float) (o : OutputForm) :
    o.encode.mapFloats f = o.encode := by
  cases hprecision : o.precision with
  | none | some n =>
    unfold encode
    rw [hprecision]
    rfl

end OutputForm

namespace Config

/-- The doubles of a configuration. -/
def numbers (c : Config) : List Float := [c.ratioSentinel]

variable {c : Config}

theorem decode?_encode (h : ∀ n ∈ c.output.precision, n < 2 ^ 64) :
    decode? c.encode.document = some c := by
  unfold decode? encode
  rw [Wire.document_record, Fields.read?_entries]
  simp only [Option.bind_eq_bind, Option.bind_some, Option.pure_def]
  rw [Fields.defaulted_record (by decide) rfl, Fields.defaulted_record (by decide) rfl,
    Fields.defaulted_record (by decide) rfl, Fields.defaulted_record (by decide) rfl,
    OutputForm.decode?_encode h]
  rfl

theorem fits_encode (h : ∀ n ∈ c.output.precision, n < 2 ^ 64) (room : Nat) :
    Fits (room + 2) c.encode.toJson := by
  apply fits_record
  simp only [List.forall_mem_cons]
  exact ⟨.string _ _, .string _ _, .float _ _, OutputForm.fits_encode h room, by simp⟩

theorem covers_document (c : Config) : wanted.Covers c.encode.document := by
  apply covers_record
  simp only [List.forall_mem_cons]
  exact ⟨⟨_, rfl, .all _⟩, ⟨_, rfl, .all _⟩, ⟨_, rfl, .all _⟩,
    ⟨_, rfl, c.output.covers_document⟩, by simp⟩

theorem mem_floats {x : Float} : x ∈ c.encode.document.floats ↔ x ∈ c.numbers := by
  have hnone : ∀ x ∈ c.output.encode.document.floats, x ∈ c.numbers := by
    rw [Wire.floats_of_mapFloats fun f => c.output.mapFloats_encode f]
    exact nofun
  constructor
  · revert x
    apply forall_floats_record
    simp only [List.forall_mem_cons]
    exact ⟨nofun, nofun, fun x hx => hx, hnone, by simp⟩
  · intro hx
    exact mem_floats_of_lookup "ratio_sentinel" (w := .float c.ratioSentinel) rfl hx

/-- The configuration with another sentinel. -/
def mapFloats (f : Float → Float) (c : Config) : Config :=
  { c with ratioSentinel := f c.ratioSentinel }

theorem encode_mapFloats (f : Float → Float) (c : Config) :
    (c.mapFloats f).encode = c.encode.mapFloats f := by
  unfold encode
  rw [Wire.mapFloats_record]
  simp only [List.map_cons, List.map_nil, OutputForm.mapFloats_encode]
  rfl

/-- A configuration with a finite sentinel is read back exactly when the sentinel is. -/
theorem readBack?_iff (hprecision : ∀ n ∈ c.output.precision, n < 2 ^ 64)
    (h : ∀ x ∈ c.numbers, x.isFinite = true) :
    Wire.readBack? wanted decode? c.encode = some c ↔ ∀ x ∈ c.numbers, ReadsBack x := by
  simp only [← mem_floats] at h ⊢
  exact Wire.readBack?_eq_some_iff (fits_encode hprecision 125) c.covers_document
    (decode?_encode hprecision) (fun f => c.encode_mapFloats f)
    (fun f => decode?_encode hprecision) h

end Config

end FigureData
