/-
  Descriptors that are written and read back.

  Proved, for a descriptor and each of its parts:
  * `decode?_encode`: what is written for it is read as it was, fields without a value included.
  * `encode_mapFloats`, `mem_floats`: doubles stand nowhere but in columns and scalar rules.
  * `readBack?_iff`: so it is read back from text exactly when its doubles are.
  * `Descriptor.patch?_nil`: changing nothing in its document changes nothing.
-/
import FigureData.Descriptor.Wire
import FigureData.Proofs.Wire.Values

namespace FigureData

open Json

/-! ## Choices without content -/

theorem FilePolicy.decode?_encode (p : FilePolicy) : decode? p.encode.document = some p := by
  cases p <;> rfl

theorem MissingPolicy.decode?_encode (p : MissingPolicy) : decode? p.encode.document = some p := by
  cases p <;> rfl

theorem InputFormat.decode?_encode (f : InputFormat) : decode? f.encode.document = some f := by
  cases f <;> rfl

/-! ## Evaluations -/

namespace Evaluation

theorem decode?_encode (e : Evaluation) : decode? e.encode.document = some e := by
  cases e with
  | costComparison n =>
    show (Json.count? 8 (Wire.count n.toNat).document).map _ = _
    rw [count?_document n.toNat_lt, Option.map_some, UInt8.ofNat_toNat]
  | _ => rfl

theorem fits_encode (room : Nat) (e : Evaluation) : Fits (room + 1) e.encode.toJson := by
  cases e with
  | costComparison n =>
    have hcount : Fits room (Wire.count n.toNat).toJson :=
      fits_count (n.toNat_lt.trans (by decide)) room
    exact .object (List.forall_mem_singleton.2 hcount)
  | _ => exact .string _ _

theorem mapFloats_encode (f : Float → Float) (e : Evaluation) :
    e.encode.mapFloats f = e.encode := by
  cases e <;> rfl

/-- Every evaluation is read back. -/
theorem readBack?_eq (e : Evaluation) : Wire.readBack? .all decode? e.encode = some e := by
  rw [Wire.readBack?_of_mapFloats (e.fits_encode 126) (.all _) fun f => e.mapFloats_encode f,
    decode?_encode]

end Evaluation

/-! ## Strategies -/

theorem SampleSource.decode?_encode (s : SampleSource) : decode? s.encode.document = some s := by
  cases s <;> rfl

theorem SampleSource.mapFloats_encode (f : Float → Float) (s : SampleSource) :
    s.encode.mapFloats f = s.encode := by
  cases s <;> rfl

namespace Strategy

/-- The fields of a strategy; the suffix may be absent. -/
def fields (s : Strategy) : List (String × Option Wire) :=
  [("label", some (.text s.label)), ("source", some s.source.encode),
    ("missing", some s.missing.encode), ("file_suffix", s.fileSuffix.map .text)]

theorem nodup_fields (s : Strategy) : (s.fields.map Prod.fst).Nodup := by
  show ["label", "source", "missing", "file_suffix"].Nodup
  decide

theorem encode_eq (s : Strategy) : s.encode = .record (Wire.present s.fields) := by
  unfold encode fields
  cases s.fileSuffix <;> rfl

theorem decode?_encode (s : Strategy) : decode? s.encode.document = some s := by
  have hnodup := s.nodup_fields
  unfold decode?
  rw [encode_eq, Wire.document_record, Fields.read?_entries]
  simp only [Option.bind_eq_bind, Option.bind_some, Option.pure_def]
  rw [Fields.required_present hnodup (by decide) rfl, Fields.required_present hnodup (by decide) rfl,
    Fields.required_present hnodup (by decide) rfl,
    Fields.optional_present hnodup (by decide) rfl (fun _ => rfl) nofun,
    SampleSource.decode?_encode, MissingPolicy.decode?_encode]
  rfl

theorem fits_encode (room : Nat) (s : Strategy) : Fits (room + 3) s.encode.toJson := by
  have hsource : Fits (room + 2) s.source.encode.toJson := by
    cases s.source with
    | recordField key field =>
      refine .object (List.forall_mem_singleton.2 (fits_record ?_))
      simp only [List.forall_mem_cons]
      exact ⟨.string _ _, .string _ _, by simp⟩
    | valueArray pointer =>
      exact .object (List.forall_mem_singleton.2
        (fits_record (List.forall_mem_singleton.2 (.string _ _))))
  have hsuffix : ∀ w ∈ s.fileSuffix.map Wire.text, Fits (room + 2) w.toJson :=
    Option.forall_mem_map.2 fun suffix _ => .string _ suffix
  rw [encode_eq]
  refine fits_record (Wire.forall_mem_present (P := fun w => Fits (room + 2) w.toJson) ?_)
  unfold fields
  simp only [List.forall_mem_cons, Option.mem_def, Option.some.injEq, forall_eq']
  exact ⟨.string _ _, hsource, .string _ _, hsuffix, by simp⟩

theorem mapFloats_encode (f : Float → Float) (s : Strategy) : s.encode.mapFloats f = s.encode := by
  rw [encode_eq, Wire.mapFloats_record, Wire.map_present]
  unfold fields
  simp only [List.map_cons, List.map_nil, Option.map_some, Option.map_map,
    SampleSource.mapFloats_encode]
  rfl

end Strategy

/-! ## Columns -/

theorem Statistic.fits_encode (room : Nat) (s : Statistic) : Fits (room + 1) s.encode.toJson := by
  cases s with
  | quantile p => exact .object (List.forall_mem_singleton.2 (.string _ _))
  | _ => exact .string _ _

namespace Column

/-- The doubles of a column. -/
def numbers : Column → List Float
  | .position _ step => [step]
  | _ => []

theorem decode?_encode (c : Column) : decode? c.encode.document = some c := by
  cases c with
  | stat header strategy statistic =>
    cases statistic with
    | quantile p => cases p <;> rfl
    | _ => rfl
  | _ => rfl

theorem fits_encodeAs {room : Nat} (source header : String) {more : List (String × Wire)}
    (h : ∀ f ∈ more, Fits room f.2.toJson) : Fits (room + 1) (encodeAs source header more).toJson :=
  fits_record (List.forall_mem_cons.2 ⟨.string _ _, List.forall_mem_cons.2 ⟨.string _ _, h⟩⟩)

theorem fits_encode (room : Nat) (c : Column) : Fits (room + 2) c.encode.toJson := by
  cases c with
  | stat header strategy statistic =>
    refine fits_encodeAs "stat" header ?_
    simp only [List.forall_mem_cons]
    exact ⟨.string _ _, statistic.fits_encode _, by simp⟩
  | position header step =>
    exact fits_encodeAs "position" header (List.forall_mem_singleton.2 (.float _ step))
  | _ => exact fits_encodeAs _ _ nofun

theorem mem_floats {c : Column} {x : Float} : x ∈ c.encode.document.floats ↔ x ∈ c.numbers := by
  cases c with
  | stat header strategy statistic =>
    cases statistic <;> exact Iff.rfl
  | _ => exact Iff.rfl

/-- The column with another step. -/
def mapFloats (f : Float → Float) : Column → Column
  | .position header step => .position header (f step)
  | c => c

theorem encode_mapFloats (f : Float → Float) (c : Column) :
    (c.mapFloats f).encode = c.encode.mapFloats f := by
  cases c with
  | stat header strategy statistic =>
    cases statistic <;> rfl
  | _ => rfl

/-- A column with a finite step is read back exactly when its step is. -/
theorem readBack?_iff {c : Column} (h : ∀ x ∈ c.numbers, x.isFinite = true) :
    Wire.readBack? .all decode? c.encode = some c ↔ ∀ x ∈ c.numbers, ReadsBack x := by
  simp only [← mem_floats] at h ⊢
  exact Wire.readBack?_eq_some_iff (c.fits_encode 125) (.all _) c.decode?_encode
    (fun f => c.encode_mapFloats f) (fun f => decode?_encode _) h

end Column

theorem ComparisonRule.decode?_encode (r : ComparisonRule) : decode? r.encode.document = some r :=
  rfl

theorem ComparisonRule.fits_encode (room : Nat) (r : ComparisonRule) :
    Fits (room + 1) r.encode.toJson := by
  apply fits_record
  simp only [List.forall_mem_cons]
  exact ⟨.string _ _, .string _ _, .string _ _, by simp⟩

theorem SortKey.decode?_encode (k : SortKey) : decode? k.encode.document = some k := rfl

theorem SortKey.fits_encode (room : Nat) (k : SortKey) : Fits (room + 1) k.encode.toJson := by
  apply fits_record
  simp only [List.forall_mem_cons]
  exact ⟨.string _ _, .bool _ _, by simp⟩

/-! ## Scalars and attachments -/

namespace ScalarRule

/-- The doubles of a scalar rule. -/
def numbers : ScalarRule → List Float
  | .fractionAtOrBelow _ _ threshold => [threshold]
  | _ => []

theorem decode?_encode (r : ScalarRule) : decode? r.encode.document = some r := by
  cases r <;> rfl

theorem fits_encode (room : Nat) (r : ScalarRule) : Fits (room + 1) r.encode.toJson := by
  cases r with
  | ratioSummary column =>
    apply fits_record
    simp only [List.forall_mem_cons]
    exact ⟨.string _ _, .string _ _, by simp⟩
  | fractionAtOrBelow name column threshold =>
    apply fits_record
    simp only [List.forall_mem_cons]
    exact ⟨.string _ _, .string _ _, .string _ _, .float _ _, by simp⟩
  | columnMedian name column | columnSum name column =>
    apply fits_record
    simp only [List.forall_mem_cons]
    exact ⟨.string _ _, .string _ _, .string _ _, by simp⟩

theorem mem_floats {r : ScalarRule} {x : Float} :
    x ∈ r.encode.document.floats ↔ x ∈ r.numbers := by
  cases r <;> exact Iff.rfl

/-- The rule with another threshold. -/
def mapFloats (f : Float → Float) : ScalarRule → ScalarRule
  | .fractionAtOrBelow name column threshold => .fractionAtOrBelow name column (f threshold)
  | r => r

theorem encode_mapFloats (f : Float → Float) (r : ScalarRule) :
    (r.mapFloats f).encode = r.encode.mapFloats f := by
  cases r <;> rfl

/-- A scalar rule with a finite threshold is read back exactly when its threshold is. -/
theorem readBack?_iff {r : ScalarRule} (h : ∀ x ∈ r.numbers, x.isFinite = true) :
    Wire.readBack? .all decode? r.encode = some r ↔ ∀ x ∈ r.numbers, ReadsBack x := by
  simp only [← mem_floats] at h ⊢
  exact Wire.readBack?_eq_some_iff (r.fits_encode 126) (.all _) r.decode?_encode
    (fun f => r.encode_mapFloats f) (fun f => decode?_encode _) h

end ScalarRule

theorem AttachmentRule.decode?_encode (r : AttachmentRule) : decode? r.encode.document = some r :=
  rfl

theorem AttachmentRule.fits_encode (room : Nat) (r : AttachmentRule) :
    Fits (room + 1) r.encode.toJson := by
  apply fits_record
  simp only [List.forall_mem_cons]
  exact ⟨.string _ _, .string _ _, by simp⟩

/-! ## Descriptors -/

namespace Descriptor

/-- The fields of a descriptor; three of them may be absent. -/
def fields (d : Descriptor) : List (String × Option Wire) :=
  [("kind", some d.evaluation.encode),
    ("format", some d.format.encode),
    ("file_patterns", some (.texts d.filePatterns)),
    ("reserved", some (.texts d.reserved)),
    ("required_keys", some (.texts d.requiredKeys)),
    ("strategies", some (.list (d.strategies.map Strategy.encode))),
    ("default_missing", some d.defaultMissing.encode),
    ("ideal", d.ideal.map .text),
    ("entity_scalars", some (.list (d.entityScalars.map encodePair))),
    ("comparisons", some (.list (d.comparisons.map ComparisonRule.encode))),
    ("columns", some (.list (d.columns.map Column.encode))),
    ("sort", d.sort.map SortKey.encode),
    ("scalars", some (.list (d.scalars.map ScalarRule.encode))),
    ("attachment", d.attachment.map AttachmentRule.encode),
    ("file_policy", some d.filePolicy.encode),
    ("output_dir", some (.text d.outputFolder)),
    ("data_file", some (.text d.dataFile))]

theorem nodup_fields (d : Descriptor) : (d.fields.map Prod.fst).Nodup := by
  show fieldNames.Nodup
  decide

theorem encode_eq (d : Descriptor) : d.encode = .record (Wire.present d.fields) := by
  unfold encode fields
  cases d.ideal <;> cases d.sort <;> cases d.attachment <;> rfl

theorem decode?_encode (d : Descriptor) : decode? d.encode.document = some d := by
  have hnodup := d.nodup_fields
  unfold decode?
  rw [encode_eq, Wire.document_record, Fields.read?_entries, Option.bind_eq_bind, Option.bind_some]
  rw [Fields.required_present hnodup (by decide) rfl, Fields.required_present hnodup (by decide) rfl,
    Fields.required_present hnodup (by decide) rfl, Fields.required_present hnodup (by decide) rfl,
    Fields.required_present hnodup (by decide) rfl, Fields.required_present hnodup (by decide) rfl,
    Fields.required_present hnodup (by decide) rfl,
    Fields.optional_present hnodup (by decide) rfl (fun _ => rfl) nofun,
    Fields.required_present hnodup (by decide) rfl, Fields.required_present hnodup (by decide) rfl,
    Fields.required_present hnodup (by decide) rfl,
    Fields.optional_present hnodup (by decide) rfl SortKey.decode?_encode nofun,
    Fields.required_present hnodup (by decide) rfl,
    Fields.optional_present hnodup (by decide) rfl AttachmentRule.decode?_encode nofun,
    Fields.required_present hnodup (by decide) rfl, Fields.required_present hnodup (by decide) rfl,
    Fields.required_present hnodup (by decide) rfl,
    Evaluation.decode?_encode, InputFormat.decode?_encode, list?_texts, list?_texts, list?_texts,
    list?_encode Strategy.decode?_encode, MissingPolicy.decode?_encode,
    list?_encode (fun _ => rfl), list?_encode ComparisonRule.decode?_encode,
    list?_encode Column.decode?_encode, list?_encode ScalarRule.decode?_encode,
    FilePolicy.decode?_encode]
  rfl

theorem fits_encode (room : Nat) (d : Descriptor) : Fits (room + 5) d.encode.toJson := by
  have htexts : ∀ items : List String, Fits (room + 4) (Wire.texts items).toJson :=
    fun items => fits_list (List.forall_mem_map.2 fun text _ => .string _ text)
  have hpairs : Fits (room + 4) (Wire.list (d.entityScalars.map encodePair)).toJson := by
    refine fits_list (List.forall_mem_map.2 fun p _ => fits_list ?_)
    simp only [List.forall_mem_cons]
    exact ⟨.string _ _, .string _ _, by simp⟩
  have hideal : ∀ w ∈ d.ideal.map Wire.text, Fits (room + 4) w.toJson :=
    Option.forall_mem_map.2 fun pointer _ => .string _ pointer
  have hsort : ∀ w ∈ d.sort.map SortKey.encode, Fits (room + 4) w.toJson :=
    Option.forall_mem_map.2 fun k _ => k.fits_encode _
  have hattachment : ∀ w ∈ d.attachment.map AttachmentRule.encode, Fits (room + 4) w.toJson :=
    Option.forall_mem_map.2 fun r _ => r.fits_encode _
  rw [encode_eq]
  refine fits_record (Wire.forall_mem_present (P := fun w => Fits (room + 4) w.toJson) ?_)
  unfold fields
  simp only [List.forall_mem_cons, Option.mem_def, Option.some.injEq, forall_eq']
  exact ⟨d.evaluation.fits_encode _, .string _ _, htexts _, htexts _, htexts _,
    fits_list (List.forall_mem_map.2 fun s _ => s.fits_encode room), .string _ _, hideal, hpairs,
    fits_list (List.forall_mem_map.2 fun r _ => r.fits_encode _),
    fits_list (List.forall_mem_map.2 fun c _ => c.fits_encode _), hsort,
    fits_list (List.forall_mem_map.2 fun r _ => r.fits_encode _), hattachment, .string _ _,
    .string _ _, .string _ _, by simp⟩

/-! ### Doubles -/

/-- The doubles of a descriptor. -/
def numbers (d : Descriptor) : List Float :=
  d.columns.flatMap Column.numbers ++ d.scalars.flatMap ScalarRule.numbers

/-- The descriptor with other doubles. -/
def mapFloats (f : Float → Float) (d : Descriptor) : Descriptor :=
  { d with
    columns := d.columns.map (Column.mapFloats f)
    scalars := d.scalars.map (ScalarRule.mapFloats f) }

theorem encode_mapFloats (f : Float → Float) (d : Descriptor) :
    (d.mapFloats f).encode = d.encode.mapFloats f := by
  rw [encode_eq, encode_eq, Wire.mapFloats_record, Wire.map_present]
  unfold fields mapFloats
  simp only [List.map_cons, List.map_nil, Option.map_some, Option.map_map,
    Evaluation.mapFloats_encode, Wire.mapFloats_texts,
    Wire.mapFloats_list_self Strategy.encode (Strategy.mapFloats_encode f),
    Wire.mapFloats_list_self encodePair fun _ => rfl,
    Wire.mapFloats_list_self ComparisonRule.encode fun _ => rfl,
    Wire.mapFloats_list_map (Column.encode_mapFloats f),
    Wire.mapFloats_list_map (ScalarRule.encode_mapFloats f)]
  rfl

/-- Doubles stand nowhere but in columns and scalar rules. -/
theorem floats_subset (d : Descriptor) : ∀ x ∈ d.encode.document.floats, x ∈ d.numbers := by
  have hnone : ∀ w : Wire, (∀ f, w.mapFloats f = w) → ∀ x ∈ w.document.floats, x ∈ d.numbers := by
    intro w h
    rw [Wire.floats_of_mapFloats h]
    exact nofun
  have hoption : ∀ {α : Type} (encode : α → Wire) (value : Option α),
      (∀ v f, (encode v).mapFloats f = encode v) →
      ∀ w ∈ value.map encode, ∀ x ∈ w.document.floats, x ∈ d.numbers := by
    intro α encode value h
    exact Option.forall_mem_map.2 fun v _ => hnone _ (h v)
  have hcolumns : ∀ x ∈ (Wire.list (d.columns.map Column.encode)).document.floats,
      x ∈ d.numbers := by
    intro x hx
    obtain ⟨c, hc, hx⟩ := mem_floats_list.1 hx
    exact List.mem_append_left _ (List.mem_flatMap.2 ⟨c, hc, Column.mem_floats.1 hx⟩)
  have hscalars : ∀ x ∈ (Wire.list (d.scalars.map ScalarRule.encode)).document.floats,
      x ∈ d.numbers := by
    intro x hx
    obtain ⟨r, hr, hx⟩ := mem_floats_list.1 hx
    exact List.mem_append_right _ (List.mem_flatMap.2 ⟨r, hr, ScalarRule.mem_floats.1 hx⟩)
  rw [encode_eq]
  refine forall_floats_record
    (Wire.forall_mem_present (P := fun w => ∀ x ∈ w.document.floats, x ∈ d.numbers) ?_)
  unfold fields
  simp only [List.forall_mem_cons, Option.mem_def, Option.some.injEq, forall_eq']
  exact ⟨hnone _ fun f => d.evaluation.mapFloats_encode f, nofun,
    hnone _ fun f => Wire.mapFloats_texts f _, hnone _ fun f => Wire.mapFloats_texts f _,
    hnone _ fun f => Wire.mapFloats_texts f _,
    hnone _ fun f => Wire.mapFloats_list_self _ (Strategy.mapFloats_encode f) _, nofun,
    hoption _ _ fun _ _ => rfl, hnone _ fun f => Wire.mapFloats_list_self _ (fun _ => rfl) _,
    hnone _ fun f => Wire.mapFloats_list_self _ (fun _ => rfl) _, hcolumns,
    hoption _ _ fun _ _ => rfl, hscalars, hoption _ _ fun _ _ => rfl, nofun, nofun, nofun,
    by simp⟩

theorem mem_floats {d : Descriptor} {x : Float} :
    x ∈ d.encode.document.floats ↔ x ∈ d.numbers := by
  refine ⟨d.floats_subset x, fun hx => ?_⟩
  have hfield : ∀ (name : String) {w : Wire}, d.fields.lookup name = some (some w) →
      x ∈ w.document.floats → x ∈ d.encode.document.floats := by
    intro name w hw hx
    rw [encode_eq]
    refine mem_floats_of_lookup name ?_ hx
    rw [Wire.lookup_present d.nodup_fields, hw, Option.join_some]
  rcases List.mem_append.1 hx with hx | hx
  · obtain ⟨c, hc, hx⟩ := List.mem_flatMap.1 hx
    exact hfield "columns" rfl (mem_floats_list.2 ⟨c, hc, Column.mem_floats.2 hx⟩)
  · obtain ⟨r, hr, hx⟩ := List.mem_flatMap.1 hx
    exact hfield "scalars" rfl (mem_floats_list.2 ⟨r, hr, ScalarRule.mem_floats.2 hx⟩)

/-- A descriptor with finite doubles is read back exactly when they are. -/
theorem readBack?_iff {d : Descriptor} (h : ∀ x ∈ d.numbers, x.isFinite = true) :
    Wire.readBack? .all decode? d.encode = some d ↔ ∀ x ∈ d.numbers, ReadsBack x := by
  simp only [← mem_floats] at h ⊢
  exact Wire.readBack?_eq_some_iff (d.fits_encode 122) (.all _) d.decode?_encode
    (fun f => d.encode_mapFloats f) (fun f => decode?_encode _) h

/-! ### Changes -/

/-- The members of an object with one of them replaced, or taken away by null. -/
def replaceMember (members : List (String × Json)) (change : String × Json) :
    List (String × Json) :=
  let others := members.filter fun m => m.1 ≠ change.1
  if change.2.isNull then others else others ++ [change]

/-- A descriptor whose fields are changed in its document, which is then read again. -/
def patch? (d : Descriptor) (changes : List (String × Json)) : Option Descriptor :=
  match d.encode.document with
  | .object members => decode? (.object (changes.foldl replaceMember members))
  | _ => none

/-- Without changes the descriptor stays as it is, whatever doubles it has. -/
theorem patch?_nil (d : Descriptor) : d.patch? [] = some d := by
  have hdecode := d.decode?_encode
  rw [encode_eq, Wire.document_record] at hdecode
  rw [patch?, encode_eq, Wire.document_record]
  exact hdecode

end Descriptor

end FigureData
