/-
  The file with the summary read back.

  Proved:
  * `ScalarSummary.decode?_encode`: what is written for a summary is read as the summary.
  * `ScalarSummary.isWritable_of_decode?`: a summary that is read from a document with finite
    numbers alone has finite numbers and counts of 64 bits.
  * `ScalarSummary.read?_written`: so the file with a summary reads back as that summary exactly
    when its numbers are finite and its counts fit 64 bits, provided that its finite numbers are
    written so that they read back.
-/
import FigureData.Export.Bundle
import FigureData.Proofs.Json.Finite
import FigureData.Proofs.Wire.Values

namespace FigureData

open Json

namespace ScalarSummary

/-- All doubles of a summary. -/
def numbers (s : ScalarSummary) : List Float :=
  s.scalars.values ++ (s.branch.map CurveBranch.numbers).getD []

/-- Every count of a summary fits 64 bits. -/
structure HasWordCounts (s : ScalarSummary) : Prop where
  rows : s.rows < 2 ^ 64
  inputFiles : s.provenance.inputFiles < 2 ^ 64
  droppedEntities : s.provenance.droppedEntities < 2 ^ 64

variable {s : ScalarSummary}

theorem decode?_encode (h : s.HasWordCounts) : decode? s.encode.document = some s := by
  unfold decode? encode
  rw [Wire.document_record, Fields.read?_entries]
  simp only [Option.bind_eq_bind, Option.bind_some, Option.pure_def]
  cases hbranch : s.branch with
  | none =>
    rw [Fields.required_record (by decide) rfl, Fields.required_record (by decide) rfl,
      Fields.required_record (by decide) rfl, Fields.optional_record_absent (by decide) rfl,
      Fields.required_record (by decide) rfl, list?_texts, count?_document h.rows,
      floatMap?_document, Provenance.decode?_encode h.inputFiles h.droppedEntities]
    simp only [Option.bind_some]
    rw [← hbranch]
  | some b =>
    rw [Fields.required_record (by decide) rfl, Fields.required_record (by decide) rfl,
      Fields.required_record (by decide) rfl, Fields.optional_record (by decide) rfl ?_,
      Fields.required_record (by decide) rfl, list?_texts, count?_document h.rows,
      floatMap?_document, CurveBranch.decode?_encode,
      Provenance.decode?_encode h.inputFiles h.droppedEntities]
    · simp only [Option.bind_some, Option.map_some]
      rw [← hbranch]
    · cases b with
      | bounded => exact nofun
      | withOutliers maxRatio fraction => exact nofun

/-! ## Writing -/

/-- A summary fits when its counts do. -/
theorem fits_encode (hcounts : s.HasWordCounts) : Fits maxDepth s.encode.toJson := by
  have hcolumns : Fits 126 (Wire.texts s.columns).toJson :=
    fits_list (List.forall_mem_map.2 fun column _ => .string 125 column)
  have hfloats : Fits 126 (Wire.floatMap s.scalars).toJson :=
    fits_record (List.forall_mem_map.2 fun e _ => .float 125 e.2)
  have hcurve : ∀ f ∈ Wire.optionalField "branch" CurveBranch.encode s.branch,
      Fits 126 f.2.toJson :=
    Wire.forall_mem_optionalField.2 fun b _ => b.fits_encode 125
  apply fits_record
  simp only [List.forall_mem_append, List.forall_mem_cons]
  exact ⟨⟨⟨hcolumns, fits_count hcounts.rows _, hfloats, by simp⟩, hcurve⟩,
    Provenance.fits_encode hcounts.inputFiles hcounts.droppedEntities, by simp⟩

/-- Nothing is written as a double but the doubles of the summary. -/
theorem floats_subset (s : ScalarSummary) : ∀ x ∈ s.encode.document.floats, x ∈ s.numbers := by
  have hscalars : ∀ x ∈ (Wire.floatMap s.scalars).document.floats, x ∈ s.numbers := by
    refine forall_floats_record (List.forall_mem_map.2 fun e he x hx => ?_)
    rw [List.mem_singleton.1 hx]
    exact List.mem_append_left _ (List.mem_map_of_mem he)
  have hcurve : ∀ f ∈ Wire.optionalField "branch" CurveBranch.encode s.branch,
      ∀ x ∈ f.2.document.floats, x ∈ s.numbers := by
    refine Wire.forall_mem_optionalField.2 fun b hb x hx => ?_
    unfold numbers
    rw [Option.mem_def.1 hb]
    exact List.mem_append_right _ (CurveBranch.mem_floats.1 hx)
  have htexts : ∀ x ∈ (Wire.texts s.columns).document.floats, x ∈ s.numbers := by
    rw [Wire.floats_of_mapFloats fun f => Wire.mapFloats_texts f s.columns]
    exact nofun
  have hprovenance : ∀ x ∈ s.provenance.encode.document.floats, x ∈ s.numbers := by
    rw [Wire.floats_of_mapFloats fun f => s.provenance.mapFloats_encode f]
    exact nofun
  apply forall_floats_record
  simp only [List.forall_mem_append, List.forall_mem_cons]
  exact ⟨⟨⟨htexts, nofun, hscalars, by simp⟩, hcurve⟩, hprovenance, by simp⟩

/-- Every field that is written is wanted. -/
theorem covers_document (s : ScalarSummary) : wanted.Covers s.encode.document := by
  apply covers_record
  simp only [List.forall_mem_append, List.forall_mem_cons]
  refine ⟨⟨⟨⟨_, rfl, .all _⟩, ⟨_, rfl, .all _⟩, ⟨_, rfl, .all _⟩, by simp⟩, ?_⟩,
    ⟨_, rfl, s.provenance.covers_document⟩, by simp⟩
  exact Wire.forall_mem_optionalField.2 fun b _ => ⟨_, rfl, .all _⟩

/-! ## Reading -/

/-- Everything in a summary has a form of its own in a text. -/
structure IsWritable (s : ScalarSummary) : Prop extends s.HasWordCounts where
  numbers : ∀ x ∈ s.numbers, x.isFinite = true

theorem isFinite_branch {j : Json} (hj : j.IsFinite) {b : CurveBranch}
    (h : CurveBranch.decode? j = some b) : ∀ x ∈ b.numbers, x.isFinite = true := by
  unfold CurveBranch.decode? at h
  obtain ⟨⟨name, content⟩, hcontent, h⟩ := Option.bind_eq_some_iff.1 h
  have hfinite := isFinite_tagged? hj hcontent
  split at h
  · split at h
    · cases h
      exact nofun
    · cases h
  next he =>
    cases he
    obtain ⟨fields, hfields, h⟩ := Option.bind_eq_some_iff.1 h
    obtain ⟨maxRatio, hmax, h⟩ := Option.bind_eq_some_iff.1 h
    obtain ⟨fraction, hfraction, h⟩ := Option.bind_eq_some_iff.1 h
    cases h
    have hfields := Fields.isFinite_read? hfinite hfields
    obtain ⟨jmax, hjmax, hmax⟩ := hfields.of_required hmax
    obtain ⟨jfraction, hjfraction, hfraction⟩ := hfields.of_required hfraction
    exact List.forall_mem_cons.2 ⟨hjmax.number? hmax,
      List.forall_mem_singleton.2 (hjfraction.number? hfraction)⟩
  · cases h

/-- A summary that is read from a finite document can be written. -/
theorem isWritable_of_decode? {j : Json} (hj : j.IsFinite) (h : decode? j = some s) :
    s.IsWritable := by
  unfold decode? at h
  obtain ⟨fields, hfields, h⟩ := Option.bind_eq_some_iff.1 h
  obtain ⟨columns, -, h⟩ := Option.bind_eq_some_iff.1 h
  obtain ⟨rows, hrows, h⟩ := Option.bind_eq_some_iff.1 h
  obtain ⟨scalars, hscalars, h⟩ := Option.bind_eq_some_iff.1 h
  obtain ⟨branch, hbranch, h⟩ := Option.bind_eq_some_iff.1 h
  obtain ⟨provenance, hprovenance, h⟩ := Option.bind_eq_some_iff.1 h
  cases h
  have hfields := Fields.isFinite_read? hj hfields
  obtain ⟨jrows, -, hrows⟩ := hfields.of_required hrows
  obtain ⟨jscalars, hjscalars, hscalars⟩ := hfields.of_required hscalars
  obtain ⟨jprovenance, hjprovenance, hprovenance⟩ := hfields.of_required hprovenance
  obtain ⟨hinput, hdropped⟩ := Provenance.counts_of_decode? hprovenance
  refine ⟨⟨count?_lt hrows, hinput, hdropped⟩, ?_⟩
  refine List.forall_mem_append.2 ⟨isFinite_floatMap? hjscalars hscalars, ?_⟩
  cases branch with
  | none => exact nofun
  | some b =>
    obtain ⟨jbranch, hjbranch, hbranch⟩ := hfields.of_optional hbranch
    exact isFinite_branch hjbranch hbranch

/-- The file with a summary reads back as that summary exactly when everything in it has a form
of its own, provided that its finite numbers are written so that they read back. -/
theorem read?_written (hnumbers : ∀ x ∈ s.numbers, x.isFinite = true → ReadsBack x) :
    read? (Bytes.ofText s.encode.toJson.canonical) = some s ↔ s.IsWritable := by
  unfold read?
  rw [Bytes.text?_ofText, Option.bind_some]
  constructor
  · intro h
    obtain ⟨j, hj, hdecode⟩ := Option.bind_eq_some_iff.1 h
    exact isWritable_of_decode? (isFinite_readSelected? hj) hdecode
  · intro h
    have hread : ∀ x ∈ s.encode.document.floats, ReadsBack x := by
      intro x hx
      have hx := s.floats_subset x hx
      exact hnumbers x hx (h.numbers x hx)
    have hback := readSelected?_canonical (fits_encode h.toHasWordCounts) hread s.covers_document
    rw [hback, Option.bind_some]
    exact decode?_encode h.toHasWordCounts

end ScalarSummary

end FigureData
