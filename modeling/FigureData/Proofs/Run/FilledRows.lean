/-
  Missing cells appear only where a policy allows them.

  Documents hold finite numbers, every entity taken in has a sample for every declared strategy
  and a number for every declared scalar, and what is kept has passed the policies.  So a column
  that its descriptor fills has a text or a number in every row.

  Proved:
  * `isMeasured_of_takeIn`: the entities taken in are measured as their descriptor declares.
  * `isFilled_of_collect`: the columns that a descriptor fills are filled in every row.
-/
import FigureData.Proofs.Entity.Filled
import FigureData.Proofs.Run.CostFigures

namespace FigureData

open Binary64 Extraction Outcome

/-! ## Entities taken in -/

section TakeIn

variable {ctx : Context} {e : Evaluation} {t : FileTree} {rules : StrategyRules} {r : Record}
  {c : Contribution}

/-- A contribution has a sample for every strategy without files of its own. -/
theorem exists_lookup_sample (hc : rules.read r = .ok (some c)) {s : Strategy}
    (hs : s ∈ rules.strategies) (hsuffix : s.fileSuffix = none) :
    ∃ sample, c.samples.reverse.lookup s.label = some sample := by
  obtain ⟨j, -, hread⟩ := StrategyRules.read_spec hc
  have hheld : s ∈ rules.held r.fileName := by
    refine List.mem_filter.2 ⟨hs, ?_⟩
    unfold StrategyRules.applies
    rw [hsuffix]
  have hlabel : s.label ∈ c.samples.reverse.map Prod.fst := by
    rw [List.map_reverse, List.mem_reverse, labels_of_forall₂ hread]
    exact List.mem_map_of_mem hheld
  obtain ⟨sample, hsample, -⟩ := exists_lookup hlabel
  exact ⟨sample, hsample⟩

/-- The samples of a contribution hold finite measurements and missing markers. -/
theorem finite_samples (hr : .ok r ∈ inputItems ctx e t) (hc : rules.read r = .ok (some c)) :
    ∀ x ∈ c.samples, ∀ v ∈ x.2.values, v = missing ∨ v.isFinite = true := by
  obtain ⟨j, hj, hread⟩ := StrategyRules.read_spec hc
  intro x hx v hv
  obtain ⟨s, -, -, hsample⟩ := exists_mem_of_forall₂ hread hx
  refine (mem_values_of_readSample hsample v hv).imp_right ?_
  exact SampleSource.isFinite_numbers (isFinite_of_inputItems hr hj) v

theorem isFinite_requireNumber {j : Json} (hj : j.IsFinite) {pointer file : String} {x : Float}
    (h : requireNumber j pointer file = .ok x) : x.isFinite = true := by
  unfold requireNumber at h
  obtain ⟨part, hpart, h⟩ := bind_eq_ok h
  unfold require at hpart
  split at hpart
  next found hfound =>
    cases hpart
    split at h
    next y hy =>
      cases h
      exact (hj.at? hfound).number? hy
    next => cases h
  next => cases hpart

/-- A contribution has a finite number for every declared scalar. -/
theorem exists_lookup_scalar (hr : .ok r ∈ inputItems ctx e t) (hc : rules.read r = .ok (some c))
    {declared : String × String} (hdeclared : declared ∈ rules.scalars) :
    ∃ x, c.scalars.entries.reverse.lookup declared.1 = some x ∧ x.isFinite = true := by
  obtain ⟨j, scalars, hj, -, -, hscalars, hread⟩ := StrategyRules.read_fields hc
  have hname : declared.1 ∈ c.scalars.entries.reverse.map Prod.fst := by
    rw [List.map_reverse, List.mem_reverse, hscalars]
    apply SortedMap.mem_keys_ofList
    rw [map_eq_of_forall₂ (hread.imp fun _ _ hx => hx.1)]
    exact List.mem_map_of_mem hdeclared
  obtain ⟨x, hx, hmem⟩ := exists_lookup hname
  refine ⟨x, hx, ?_⟩
  have hwritten : (declared.1, x) ∈ scalars := by
    rw [List.mem_reverse, hscalars] at hmem
    exact (SortedMap.mem_insertAll hmem).resolve_left List.not_mem_nil
  obtain ⟨source, -, -, hnumber⟩ := exists_mem_of_forall₂ hread hwritten
  exact isFinite_requireNumber (isFinite_of_inputItems hr hj) hnumber

/-- The entities taken in are measured as their descriptor declares. -/
theorem isMeasured_of_takeIn {intake : Intake} {entities : List Entity}
    (hrules : Extractor.ofDescriptor e.descriptor = .strategies (.ofDescriptor e.descriptor) ∅)
    (h : takeIn ctx e t = .ok (intake, entities)) :
    ∀ entity ∈ entities, entity.IsMeasured e.descriptor := by
  have hall := takeIn_strategies (.ofDescriptor e.descriptor)
    (P := fun entity =>
      (∀ s ∈ e.descriptor.strategies, s.fileSuffix = none →
        ∃ sample, entity.samples.find? s.label = some sample) ∧
      (∀ x ∈ entity.samples.entries, ∀ v ∈ x.2.values, v = missing ∨ v.isFinite = true) ∧
      ∀ declared ∈ e.descriptor.entityScalars, ∃ x,
        entity.scalars.find? declared.1 = some x ∧ x.isFinite = true)
    hrules ?_ h
  · intro entity hentity
    obtain ⟨hshared, hfinite, hscalars⟩ := hall entity hentity
    refine ⟨?_, hfinite, hscalars⟩
    intro s hs
    by_cases hsuffix : s.fileSuffix = none
    · exact hshared s hs hsuffix
    · have hcontains := (takeIn_enters hrules h).2 entity hentity s hs hsuffix
      exact Option.isSome_iff_exists.1 hcontains
  intro r c hr hc
  have hadd : ∀ entity : Entity,
      (∀ x ∈ entity.samples.entries, ∀ v ∈ x.2.values, v = missing ∨ v.isFinite = true) →
      (∀ s ∈ e.descriptor.strategies, s.fileSuffix = none →
        ∃ sample, (c.addTo entity).samples.find? s.label = some sample) ∧
      (∀ x ∈ (c.addTo entity).samples.entries, ∀ v ∈ x.2.values,
        v = missing ∨ v.isFinite = true) ∧
      ∀ declared ∈ e.descriptor.entityScalars, ∃ x,
        (c.addTo entity).scalars.find? declared.1 = some x ∧ x.isFinite = true := by
    intro entity hentity
    refine ⟨?_, forall_samples_addTo (finite_samples hr hc) hentity, ?_⟩
    · intro s hs hsuffix
      obtain ⟨sample, hsample⟩ := exists_lookup_sample hc hs hsuffix
      refine ⟨sample, ?_⟩
      show (entity.samples.insertAll c.samples).find? s.label = some sample
      rw [OrderedMap.find?_insertAll, hsample, Option.some_or]
    · intro declared hdeclared
      obtain ⟨x, hx, hfinite⟩ := exists_lookup_scalar hr hc hdeclared
      refine ⟨x, ?_, hfinite⟩
      show (entity.scalars.insertAll c.scalars.entries).find? declared.1 = some x
      rw [SortedMap.find?_insertAll, hx, Option.some_or]
  exact ⟨fun i => hadd _ fun x hx => absurd hx List.not_mem_nil, fun entity hP => hadd entity hP.2.1⟩

end TakeIn

/-! ## Rows -/

/-- Every cell is a text or a number, apart from the columns excepted. -/
def Dataset.IsFilled (d : Dataset) (exceptions : List String) : Prop :=
  ∀ row ∈ d.rows, List.Forall₂ (fun header (cell : Cell) =>
    header ∈ exceptions ∨ cell.isFilled = true) d.columns row.cells

section Rows

variable {ctx : Context} {e : Evaluation} {t : FileTree} {c : Collected}

/-- The rows of a run with declared strategies are those of entities that were kept. -/
theorem exists_kept_of_mem_rows (hstrategies : e.descriptor.strategies.isEmpty = false)
    (h : collect ctx e t = .ok c) :
    c.dataset.columns = e.descriptor.headers ∧
      ∃ intake entities, takeIn ctx e t = .ok (intake, entities) ∧
        ∀ row ∈ c.dataset.rows, ∃ entity ∈ entities, ∃ s index,
          entity.summarize e.descriptor ctx.ratioSentinel = .ok (.kept s) ∧
          row = s.rowAt e.descriptor.columns index := by
  obtain ⟨intake, entities, kept, htake, hdataset, hkept⟩ := collect_eq_ok h
  obtain ⟨ordered, hperm, hcolumns, hrows⟩ := Dataset.ofDescriptor_eq_ok hdataset
  have hresolved : e.descriptor.resolvedColumns kept = e.descriptor.columns := by
    unfold Descriptor.resolvedColumns
    rw [hstrategies, if_neg Bool.false_ne_true]
  rw [hresolved] at hcolumns hrows
  refine ⟨hcolumns, intake, entities, htake, ?_⟩
  intro row hrow
  rw [hrows] at hrow
  obtain ⟨s, hs, index, hrow⟩ := mem_rowsOf hrow
  obtain ⟨entity, hentity, hsummary⟩ := hkept s (hperm.mem_iff.1 hs)
  exact ⟨entity, hentity, s, index, hsummary, hrow⟩

/-- The columns that a descriptor fills are filled in every row. -/
theorem isFilled_of_collect
    (hrules : Extractor.ofDescriptor e.descriptor = .strategies (.ofDescriptor e.descriptor) ∅)
    (hstrategies : e.descriptor.strategies.isEmpty = false) (hs : 1.0 < ctx.ratioSentinel)
    {exceptions : List String}
    (hfills : (e.descriptor.columns.all fun column =>
      decide (column.header ∈ exceptions) || e.descriptor.fills column) = true)
    (h : collect ctx e t = .ok c) : c.dataset.IsFilled exceptions := by
  obtain ⟨hcolumns, intake, entities, htake, hrows⟩ := exists_kept_of_mem_rows hstrategies h
  intro row hrow
  obtain ⟨entity, hentity, s, index, hsummary, rfl⟩ := hrows row hrow
  have hmeasured := isMeasured_of_takeIn hrules htake entity hentity
  rw [hcolumns]
  unfold Descriptor.headers EntitySummary.rowAt
  rw [List.forall₂_map_left_iff, List.forall₂_map_right_iff, List.forall₂_same]
  intro column hcolumn
  have hfill := List.all_eq_true.1 hfills column hcolumn
  rw [Bool.or_eq_true, decide_eq_true_eq] at hfill
  exact hfill.imp_right fun hfill => Entity.isFilled_cellAt hs hmeasured hsummary hfill index

end Rows

end FigureData
