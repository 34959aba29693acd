/-
  The files of a dataset: their names, and what they depend on.

  Proved:
  * `Dataset.bundle_fields`: name of the table, summary and names of the side files.
  * `Dataset.bundle_withProvenance`: of all files only the summary depends on the provenance.
  * `Dataset.bundle_error`: where every row has a cell for every column, the one thing that can
    go wrong is a number with too many decimals.
  * `Dataset.fileNames_ofDescriptor`: a dataset has a side file for every row, or none at all.
-/
import FigureData.Proofs.Export.Table

namespace FigureData.Dataset

open Outcome

variable {d : Dataset} {options : ExportOptions}

/-! ## Bundles -/

theorem bundle_fields {b : Bundle} (h : d.bundle options = .ok b) :
    b.dataFile = options.dataFile ∧ b.summary = d.summaryFor b.table options.provenance ∧
      b.attachments.map Prod.fst = d.attachments.map Attachment.fileName := by
  unfold bundle at h
  obtain ⟨table, -, h⟩ := bind_eq_ok h
  obtain ⟨files, hfiles, h⟩ := bind_eq_ok h
  cases h
  refine ⟨rfl, rfl, map_eq_of_forall₂ ((mapM_eq_ok hfiles).imp fun a f hf => ?_)⟩
  split at hf
  · cases hf
    rfl
  · cases hf

/-- Of all files only the summary depends on the provenance. -/
theorem bundle_withProvenance {b : Bundle} (h : d.bundle options = .ok b)
    (provenance : Provenance) :
    d.bundle { options with provenance } =
      .ok { b with summary := d.summaryFor b.table provenance } := by
  have hrows : ∀ rows, d.writeRows { options with provenance } rows = d.writeRows options rows := by
    intro rows
    induction rows with
    | nil => rfl
    | cons row rest ih =>
      unfold writeRows
      rw [ih]
  unfold bundle at h ⊢
  obtain ⟨table, htable, h⟩ := bind_eq_ok h
  obtain ⟨files, hfiles, h⟩ := bind_eq_ok h
  cases h
  have htable' : d.writeTable { options with provenance } = .ok table := by
    unfold writeTable at htable ⊢
    rw [hrows]
    exact htable
  rw [htable', hfiles]
  rfl

/-! ## Stops -/

theorem writeRows_error {rows : List Row}
    (hrows : ∀ row ∈ rows, row.cells.length = d.columns.length) {stop : Stop}
    (h : d.writeRows options rows = .error stop) : stop = .tooManyPlaces := by
  induction rows with
  | nil => cases h
  | cons row rest ih =>
    rw [List.forall_mem_cons] at hrows
    unfold writeRows at h
    split at h
    · exact (Except.error.inj h).symm
    · rw [if_pos hrows.1, map_eq_error] at h
      exact ih hrows.2 h

/-- Where every row has a cell for every column, the one thing that can go wrong is a number
with too many decimals. -/
theorem bundle_error (hrows : ∀ row ∈ d.rows, row.cells.length = d.columns.length) {stop : Stop}
    (h : d.bundle options = .error stop) : stop = .tooManyPlaces := by
  unfold bundle at h
  rcases bind_eq_error h with h | ⟨table, -, h⟩
  · unfold writeTable at h
    exact writeRows_error hrows (map_eq_error.1 h)
  rcases bind_eq_error h with h | ⟨files, -, h⟩
  · obtain ⟨a, -, ha⟩ := mapM_eq_error h
    split at ha
    · cases ha
    · exact (Except.error.inj ha).symm
  · cases h

/-! ## Side files -/

theorem applyScalar_attachments {ties : String → Nat} {d d' : Dataset} {rule : ScalarRule}
    (h : d.applyScalar ties rule = .ok d') : d'.attachments = d.attachments := by
  unfold applyScalar at h
  obtain ⟨values, -, rfl⟩ := map_eq_ok h
  cases rule with
  | ratioSummary column =>
    unfold withRatioSummary
    simp only
    split <;> rfl
  | fractionAtOrBelow name column threshold => rfl
  | columnMedian name column =>
    simp only
    unfold withMedian
    split
    · rfl
    · split <;> rfl
  | columnSum name column => rfl

theorem foldlM_applyScalar_attachments {ties : String → Nat} {rules : List ScalarRule}
    {d d' : Dataset} (h : rules.foldlM (applyScalar ties) d = .ok d') :
    d'.attachments = d.attachments := by
  induction rules generalizing d with
  | nil =>
    cases h
    rfl
  | cons rule rest ih =>
    rw [List.foldlM_cons] at h
    obtain ⟨next, hnext, h⟩ := bind_eq_ok h
    exact (ih h).trans (applyScalar_attachments hnext)

/-- A dataset has a side file for every row, named after it, or none at all. -/
theorem fileNames_ofDescriptor {d : Descriptor} {entities : List EntitySummary} {ds : Dataset}
    (h : ofDescriptor d entities = .ok ds) :
    ds.attachments.map Attachment.fileName =
      match d.attachment with
      | none => []
      | some rule => ds.rows.map fun row => row.id ++ rule.suffix := by
  obtain ⟨ordered, table, complete, hperm, rfl, hcomplete, rfl⟩ := ofDescriptor_stages h
  have hnone := foldlM_applyScalar_attachments hcomplete
  obtain ⟨-, hrows⟩ := foldlM_applyScalar_fields hcomplete
  obtain ⟨-, hkept, -⟩ := withAttachments_fields d.attachment entities complete
  rw [hkept]
  unfold withAttachments
  cases d.attachment with
  | none =>
    rw [hnone]
    rfl
  | some rule =>
    show (complete.rows.filterMap _).map _ = complete.rows.map _
    rw [List.map_filterMap, ← List.filterMap_eq_map]
    apply List.filterMap_congr
    intro row hrow
    -- the row is that of an entity, so the last entity with its identifier is there
    have hfound : ∃ e, lastWithId? entities row.id = some e := by
      rw [hrows] at hrow
      obtain ⟨⟨e, index⟩, he, rfl⟩ := List.mem_map.1 hrow
      have hmem : e ∈ entities := hperm.mem_iff.1 (List.fst_mem_of_mem_zipIdx he)
      rw [← Option.isSome_iff_exists, lastWithId?, List.find?_isSome]
      exact ⟨e, List.mem_reverse.2 hmem, decide_eq_true rfl⟩
    obtain ⟨e, he⟩ := hfound
    have hid : e.id = row.id := by
      unfold lastWithId? at he
      simpa using List.find?_some he
    rw [he]
    show some (e.id ++ rule.suffix) = some (row.id ++ rule.suffix)
    rw [hid]

end FigureData.Dataset
