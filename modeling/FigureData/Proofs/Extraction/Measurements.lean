/-
  The measurements that a sample takes from a document.

  Proved:
  * `mem_values_of_readSample`: every value of a sample is a missing marker or a number that
    the document holds at the place of the sample.
  * `isFinite_numbers`: the numbers of a document that was read from text are finite.
  * `Loader.isFinite_of_records`: and such are the documents of the files of a folder.
  * `values_of_isComplete`: a complete sample holds the numbers of its array.
  * `isComplete_eq_false_iff`: a sample is degraded exactly when its array is empty or holds null.
-/
import FigureData.Extraction.Reading
import FigureData.Loading.Loader
import FigureData.Proofs.Json.Finite
import FigureData.Proofs.Outcome

namespace FigureData

open Outcome

/-- The number that one element of a sample's array holds. -/
def SampleSource.number? (source : SampleSource) (element : Json) : Option Float :=
  match source with
  | .valueArray _ => element.number?
  | .recordField _ field => (element.member? field).bind Json.number?

/-- The numbers that a document holds at the place of a sample. -/
def SampleSource.numbers (source : SampleSource) (j : Json) : List Float :=
  (((j.at? source.pointer).bind Json.items?).getD []).filterMap source.number?

namespace Extraction

theorem require_eq_ok_iff {j part : Json} {pointer file : String} :
    require j pointer file = .ok part ↔ j.at? pointer = some part := by
  unfold require
  cases j.at? pointer <;> simp

theorem requireArray_eq_ok_iff {j : Json} {pointer file : String} {items : List Json} :
    requireArray j pointer file = .ok items ↔ (j.at? pointer).bind Json.items? = some items := by
  unfold requireArray
  rw [Option.bind_eq_some_iff]
  constructor
  · intro h
    obtain ⟨part, hpart, h⟩ := bind_eq_ok h
    split at h
    next found hfound =>
      cases h
      exact ⟨part, require_eq_ok_iff.1 hpart, hfound⟩
    next => cases h
  · rintro ⟨part, hpart, hitems⟩
    simp only [require_eq_ok_iff.2 hpart, hitems, bind, Except.bind]

theorem measurement_eq_ok {j : Json} {what file : String} {x : Float}
    (h : measurement j what file = .ok (some x)) : j.number? = some x := by
  unfold measurement at h
  split at h
  · cases h
  · split at h
    next y hy =>
      cases h
      exact hy
    next => cases h

theorem elementOf_eq_ok {source : SampleSource} {file : String} {element : Json} {x : Float}
    (h : elementOf source file element = .ok (some x)) : source.number? element = some x := by
  cases source with
  | valueArray pointer => exact measurement_eq_ok h
  | recordField key field =>
    unfold elementOf at h
    unfold SampleSource.number?
    simp only at h ⊢
    split at h
    next j hj =>
      rw [hj, Option.bind_some]
      exact measurement_eq_ok h
    next => cases h

/-- How a sample is read: one measurement for every element of its array. -/
theorem readSample_eq_ok {source : SampleSource} {j : Json} {file : String} {s : Sample}
    (h : readSample j source file = .ok s) :
    ∃ elements measurements, (j.at? source.pointer).bind Json.items? = some elements ∧
      List.Forall₂ (fun element m => elementOf source file element = .ok m) elements measurements ∧
      s = .ofMeasurements measurements := by
  unfold readSample at h
  obtain ⟨elements, helements, h⟩ := bind_eq_ok h
  obtain ⟨measurements, hmeasurements, h⟩ := bind_eq_ok h
  cases h
  exact ⟨elements, measurements, requireArray_eq_ok_iff.1 helements, mapM_eq_ok hmeasurements, rfl⟩

/-- Every value of a sample is a missing marker or a number that the document holds. -/
theorem mem_values_of_readSample {source : SampleSource} {j : Json} {file : String} {s : Sample}
    (h : readSample j source file = .ok s) :
    ∀ v ∈ s.values, v = Binary64.missing ∨ v ∈ source.numbers j := by
  obtain ⟨elements, measurements, helements, hmeasurements, rfl⟩ := readSample_eq_ok h
  intro v hv
  obtain ⟨m, hm, rfl⟩ := List.mem_map.1 hv
  cases m with
  | none => exact .inl rfl
  | some x =>
    obtain ⟨element, helement, hx⟩ := exists_mem_of_forall₂ hmeasurements hm
    refine .inr (List.mem_filterMap.2 ⟨element, ?_, elementOf_eq_ok hx⟩)
    rw [helements, Option.getD_some]
    exact helement

/-- Does an element of a sample's array hold null in place of a number? -/
def holdsNull (source : SampleSource) (element : Json) : Bool :=
  match source with
  | .valueArray _ => element.isNull
  | .recordField _ field => (element.member? field).any Json.isNull

theorem measurement_eq_none_iff {j : Json} {what file : String} {m : Option Float}
    (h : measurement j what file = .ok m) : m = none ↔ j.isNull = true := by
  unfold measurement at h
  split at h
  next hnull =>
    cases h
    exact iff_of_true rfl hnull
  next hnull =>
    split at h
    · cases h
      exact iff_of_false (by simp) hnull
    · cases h

theorem elementOf_eq_none_iff {source : SampleSource} {file : String} {element : Json}
    {m : Option Float} (h : elementOf source file element = .ok m) :
    m = none ↔ holdsNull source element = true := by
  cases source with
  | valueArray pointer => exact measurement_eq_none_iff h
  | recordField key field =>
    unfold elementOf at h
    unfold holdsNull
    simp only at h ⊢
    split at h
    next j hj =>
      rw [hj, Option.any_some]
      exact measurement_eq_none_iff h
    next => cases h

end Extraction

/-- The numbers of a document that was read from text are finite. -/
theorem SampleSource.isFinite_numbers {source : SampleSource} {j : Json} (h : j.IsFinite) :
    ∀ x ∈ source.numbers j, x.isFinite = true := by
  intro x hx
  obtain ⟨element, helement, hx⟩ := List.mem_filterMap.1 hx
  have hfinite : element.IsFinite := by
    cases hitems : (j.at? source.pointer).bind Json.items? with
    | none =>
      rw [hitems] at helement
      cases helement
    | some items =>
      rw [hitems, Option.getD_some] at helement
      obtain ⟨part, hpart, hitems⟩ := Option.bind_eq_some_iff.1 hitems
      exact (h.at? hpart).items? hitems element helement
  cases source with
  | valueArray pointer => exact hfinite.number? hx
  | recordField key field =>
    obtain ⟨part, hpart, hx⟩ := Option.bind_eq_some_iff.1 hx
    exact (hfinite.member? hpart).number? hx

/-! ## Files -/

namespace Loader

/-- The record of a file is known by its name and the document that it holds. -/
theorem read_eq_ok {l : Loader} {file : String} {content : Bytes} {r : Record}
    (h : l.read file content = .ok r) :
    r.fileName = file ∧ ∀ j, r.document = .ok j →
      (Bytes.text? content).bind Json.readSorted? = some j := by
  unfold read at h
  simp only at h
  split at h
  · cases h
  next text htext =>
    obtain ⟨c, hc, rfl⟩ := map_eq_ok h
    refine ⟨rfl, ?_⟩
    intro j hj
    rw [htext, Option.bind_some]
    unfold readContent at hc
    split at hc
    · cases hc
      cases hj
    · split at hc
      · cases hc
      next read hread =>
        obtain ⟨-, -, rfl⟩ := map_eq_ok hc
        cases hj
        exact hread

/-- The document of a file holds finite numbers only. -/
theorem isFinite_of_read {l : Loader} {file : String} {content : Bytes} {r : Record} {j : Json}
    (h : l.read file content = .ok r) (hj : r.document = .ok j) : j.IsFinite := by
  obtain ⟨text, -, hread⟩ := Option.bind_eq_some_iff.1 ((read_eq_ok h).2 j hj)
  exact Json.isFinite_readSorted? hread

theorem isFinite_of_records {l : Loader} {t : FileTree} {items : List (Except Fault Record)}
    (h : l.records t = .ok items) {r : Record} (hr : .ok r ∈ items) {j : Json}
    (hj : r.document = .ok j) : j.IsFinite := by
  unfold records at h
  split at h
  · cases h
  · cases h
    obtain ⟨f, -, hf⟩ := List.mem_map.1 hr
    exact isFinite_of_read hf hj

end Loader

/-! ## Complete and degraded samples -/

/-- A complete sample holds the numbers of its array. -/
theorem values_of_isComplete {source : SampleSource} {j : Json} {file : String} {s : Sample}
    (h : Extraction.readSample j source file = .ok s) (hs : s.isComplete = true) :
    s.values = source.numbers j := by
  obtain ⟨elements, measurements, helements, hread, rfl⟩ := Extraction.readSample_eq_ok h
  have hpresent : ∀ m ∈ measurements, m ≠ none := by
    rintro m hm rfl
    have hnumber := (Sample.isComplete_iff.1 hs).2 _ (List.mem_map_of_mem hm)
    cases hnumber
  show measurements.map (fun m => m.getD Binary64.missing) = source.numbers j
  unfold SampleSource.numbers
  rw [helements, Option.getD_some]
  clear h helements hs
  induction hread with
  | nil => rfl
  | cons hm _ ih =>
    rw [List.forall_mem_cons] at hpresent
    obtain ⟨x, rfl⟩ := Option.ne_none_iff_exists'.1 hpresent.1
    rw [List.map_cons, ih hpresent.2, List.filterMap_cons_some (Extraction.elementOf_eq_ok hm),
      Option.getD_some]

/-- An element that was read is a missing marker exactly when it holds null. -/
theorem isNaN_iff_holdsNull {source : SampleSource} {file : String} {element : Json}
    {m : Option Float} (hm : Extraction.elementOf source file element = .ok m)
    (hfinite : ∀ x, source.number? element = some x → x.isFinite = true) :
    (m.getD Binary64.missing).isNaN = true ↔ Extraction.holdsNull source element = true := by
  rw [← Extraction.elementOf_eq_none_iff hm]
  cases m with
  | none => exact iff_of_true rfl rfl
  | some x =>
    have hnumber := Binary64.isNaN_of_isFinite (hfinite x (Extraction.elementOf_eq_ok hm))
    rw [Option.getD_some, hnumber]
    exact iff_of_false Bool.false_ne_true (Option.some_ne_none x)

/-- The array of a sample is empty or holds null somewhere. -/
def SampleSource.isDegradedIn (source : SampleSource) (j : Json) : Prop :=
  ∃ elements, (j.at? source.pointer).bind Json.items? = some elements ∧
    (elements = [] ∨ ∃ element ∈ elements, Extraction.holdsNull source element = true)

/-- A sample is degraded exactly when its array is empty or holds null somewhere. -/
theorem isComplete_eq_false_iff {source : SampleSource} {j : Json} {file : String} {s : Sample}
    (hj : j.IsFinite) (h : Extraction.readSample j source file = .ok s) :
    s.isComplete = false ↔ source.isDegradedIn j := by
  obtain ⟨elements, measurements, helements, hread, rfl⟩ := Extraction.readSample_eq_ok h
  have hnull : ∀ element ∈ elements, ∀ m, Extraction.elementOf source file element = .ok m →
      ((m.getD Binary64.missing).isNaN = true ↔ Extraction.holdsNull source element = true) := by
    intro element helement m hm
    have hfinite : ∀ x, source.number? element = some x → x.isFinite = true := by
      intro x hx
      have hmem : x ∈ source.numbers j := by
        unfold SampleSource.numbers
        rw [helements, Option.getD_some]
        exact List.mem_filterMap.2 ⟨element, helement, hx⟩
      exact SampleSource.isFinite_numbers hj x hmem
    exact isNaN_iff_holdsNull hm hfinite
  have hempty : (Sample.ofMeasurements measurements).values = [] ↔ elements = [] := by
    unfold Sample.ofMeasurements
    rw [List.map_eq_nil_iff, ← List.length_eq_zero_iff, ← hread.length_eq,
      List.length_eq_zero_iff]
  have hmissing : (∃ v ∈ (Sample.ofMeasurements measurements).values, v.isNaN = true) ↔
      ∃ element ∈ elements, Extraction.holdsNull source element = true := by
    constructor
    · rintro ⟨v, hv, hnan⟩
      obtain ⟨m, hm, rfl⟩ := List.mem_map.1 hv
      obtain ⟨element, helement, hm⟩ := exists_mem_of_forall₂ hread hm
      exact ⟨element, helement, (hnull element helement m hm).1 hnan⟩
    · rintro ⟨element, helement, hholds⟩
      obtain ⟨m, hmem, hm⟩ := exists_mem_of_forall₂ hread.flip helement
      exact ⟨_, List.mem_map_of_mem hmem, (hnull element helement m hm).2 hholds⟩
  rw [← Bool.not_eq_true, Sample.isComplete_iff, not_and_or, not_not, hempty]
  simp only [not_forall, Bool.not_eq_false, exists_prop]
  rw [hmissing]
  unfold SampleSource.isDegradedIn
  constructor
  · exact fun hdegraded => ⟨elements, helements, hdegraded⟩
  · rintro ⟨elements', helements', hdegraded⟩
    rw [helements] at helements'
    cases helements'
    exact hdegraded

end FigureData
