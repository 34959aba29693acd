/-
  The table of levels: one row for every level that is kept, one column for every label.

  The columns are not declared.  They are found in the entities, whose order is that of the
  levels, so both rows and columns follow the levels and not the files.  The rows are sorted on
  a double; levels that share a double keep their order.

  Proved:
  * `discoveryOrder_of_pairwise`, `sortOn_of_pairwise`: entities that are in order stay in place.
  * `Dataset.ofDescriptor_complexity`: the table of such entities.
  * `exists_sifted_complexity`: entities with complete samples are kept, and nothing stops the run.
  * `Entity.find?_means_of_kept`: what is shown of an entity are the means of its samples.
  * `levels_of_any_order`: from the files, in whatever order, to the rows.
-/
import FigureData.Proofs.Binary64.Infinite
import FigureData.Proofs.Dataset.RowOrder
import FigureData.Proofs.Entity.Kept
import FigureData.Proofs.Extraction.Levels
import FigureData.Proofs.Json.Words
import FigureData.Proofs.Run.Stages

namespace FigureData

open Extraction Outcome

/-! ## Tables of entities in order -/

section Ordered

variable {summaries : List EntitySummary}

theorem discoveryOrder_of_pairwise (h : summaries.Pairwise fun a b => a.discovery ≤ b.discovery) :
    discoveryOrder summaries = summaries :=
  List.mergeSort_of_pairwise (h.imp decide_eq_true)

theorem sortOn_of_pairwise {column : Column} {ascending : Bool}
    (h : summaries.Pairwise fun a b => Cell.le ascending (a.cell column) (b.cell column) = true) :
    sortOn column ascending summaries = summaries :=
  List.mergeSort_of_pairwise h

/-- Labels are discovered in order of first appearance. -/
theorem discoveredLabels_of_pairwise
    (h : summaries.Pairwise fun a b => a.discovery ≤ b.discovery) :
    discoveredLabels summaries = (summaries.flatMap fun e => e.summaries.keys).eraseDups := by
  have hfold : ∀ labels : List String,
      summaries.foldl (fun labels e => appendNew labels e.summaries.keys) labels.eraseDups =
        (labels ++ summaries.flatMap fun e => e.summaries.keys).eraseDups := by
    clear h
    induction summaries with
    | nil =>
      intro labels
      rw [List.flatMap_nil, List.append_nil]
      rfl
    | cons e rest ih =>
      intro labels
      rw [List.foldl_cons, appendNew_eraseDups, ih, List.flatMap_cons, List.append_assoc]
  unfold discoveredLabels
  rw [discoveryOrder_of_pairwise h]
  exact hfold []

/-- Where no column shows the position of a row, a row depends on its entity alone. -/
theorem rowsOf_of_not_positional {columns : List Column}
    (h : ∀ column ∈ columns, column.isPositional = false) :
    rowsOf columns summaries = summaries.map fun e => ⟨e.id, columns.map e.cell⟩ := by
  have hrow : ∀ (e : EntitySummary) index, e.rowAt columns index = ⟨e.id, columns.map e.cell⟩ := by
    intro e index
    unfold EntitySummary.rowAt
    rw [List.map_congr_left fun column hcolumn => e.cellAt_of_not_positional (h column hcolumn) index]
  unfold rowsOf
  simp only [hrow]
  show summaries.zipIdx.map ((fun e : EntitySummary => Row.mk e.id (columns.map e.cell)) ∘ Prod.fst) =
    _
  rw [← List.map_map, List.zipIdx_map_fst]

/-- The column of the levels. -/
def levelColumn : Column := .scalar "complexity"

/-- The table of entities that are in order. -/
theorem Dataset.ofDescriptor_complexity
    (hdiscovery : summaries.Pairwise fun a b => a.discovery ≤ b.discovery)
    (hlevels : summaries.Pairwise fun a b =>
      Cell.le true (a.cell levelColumn) (b.cell levelColumn) = true) :
    let columns := levelColumn ::
      (summaries.flatMap fun e => e.summaries.keys).eraseDups.map Column.mean
    ofDescriptor .complexity summaries =
      .ok { evaluation := .complexity
            columns := columns.map Column.header
            rows := summaries.map fun e => ⟨e.id, columns.map e.cell⟩ } := by
  intro columns
  have hcolumns : Descriptor.complexity.resolvedColumns summaries = columns := by
    show levelColumn :: (discoveredLabels summaries).map Column.mean = columns
    rw [discoveredLabels_of_pairwise hdiscovery]
  have hpositional : ∀ column ∈ columns, column.isPositional = false := by
    intro column hcolumn
    rcases List.mem_cons.1 hcolumn with rfl | hcolumn
    · rfl
    · obtain ⟨label, -, rfl⟩ := List.mem_map.1 hcolumn
      rfl
  have hsort : applySort columns Descriptor.complexity.sort (discoveryOrder summaries) =
      .ok summaries := by
    rw [discoveryOrder_of_pairwise hdiscovery]
    show Except.ok (sortOn levelColumn true summaries) = _
    rw [sortOn_of_pairwise hlevels]
  have hassemble : assemble .complexity summaries columns Descriptor.complexity.sort =
      .ok { evaluation := .complexity
            columns := columns.map Column.header
            rows := rowsOf columns summaries } := by
    unfold assemble
    rw [hsort]
    rfl
  rw [rowsOf_of_not_positional hpositional] at hassemble
  unfold ofDescriptor
  rw [hcolumns]
  show (assemble .complexity summaries columns Descriptor.complexity.sort >>= _) = _
  rw [hassemble]
  rfl

end Ordered

/-! ## Entities that are kept -/

/-- Are all samples of the entity complete? -/
def Entity.isComplete (e : Entity) : Bool := e.samples.values.all Sample.isComplete

section Kept

variable {e : Entity} {sentinel : Float}

theorem Entity.isComplete_iff : e.isComplete = true ↔
    ∀ label sample, e.samples.find? label = some sample → sample.isComplete = true := by
  unfold isComplete OrderedMap.values
  rw [List.all_eq_true, List.forall_mem_map]
  constructor
  · intro h label sample hfind
    exact h _ (OrderedMap.find?_eq_some_iff.1 hfind)
  · rintro h ⟨label, sample⟩ hmem
    exact h label sample (OrderedMap.find?_eq_some_iff.2 hmem)

/-- An entity of a level is kept exactly when its samples are complete. -/
theorem Entity.exists_kept_complexity_iff :
    (∃ summary, e.summarize .complexity sentinel = .ok (.kept summary)) ↔ e.isComplete = true := by
  rw [Entity.exists_kept_iff, Entity.isComplete_iff]
  refine forall₃_congr fun label sample _ => or_iff_left ?_
  show ¬MissingPolicy.dropEntity = .undefined
  decide

/-- Entities with complete samples are kept, in their order, and nothing stops the run. -/
theorem exists_sifted_complexity (sentinel : Float) (entities : List Entity) :
    ∃ sifted, siftEntities .complexity sentinel entities = .ok sifted ∧
      List.Forall₂ (fun e summary => Entity.summarize e .complexity sentinel = .ok (.kept summary))
        (entities.filter Entity.isComplete) sifted.kept := by
  induction entities with
  | nil => exact ⟨{}, rfl, .nil⟩
  | cons e rest ih =>
    obtain ⟨more, hmore, hkept⟩ := ih
    rw [siftEntities_cons]
    obtain ⟨outcome, houtcome⟩ : ∃ outcome, e.summarize .complexity sentinel = .ok outcome :=
      Entity.summarize_ok_of_ne_abort (List.forall_mem_nil _) (by decide) sentinel
    cases outcome with
    | kept summary =>
      have hcomplete := Entity.exists_kept_complexity_iff.1 ⟨summary, houtcome⟩
      refine ⟨{ more with kept := summary :: more.kept }, ?_, ?_⟩
      · rw [houtcome, hmore]
        rfl
      · rw [List.filter_cons_of_pos hcomplete]
        exact .cons houtcome hkept
    | dropped id reason =>
      have hdegraded : ¬e.isComplete = true := by
        intro hcomplete
        obtain ⟨summary, hsummary⟩ :
            ∃ summary, e.summarize .complexity sentinel = .ok (.kept summary) :=
          Entity.exists_kept_complexity_iff.2 hcomplete
        rw [houtcome] at hsummary
        cases hsummary
      refine ⟨{ more with dropped := id :: more.dropped }, ?_, ?_⟩
      · rw [houtcome, hmore]
        rfl
      · rw [List.filter_cons_of_neg hdegraded]
        exact hkept

/-- What is kept of the samples of an entity are their means. -/
theorem Entity.find?_means_of_kept {d : Descriptor} {summary : EntitySummary}
    (h : e.summarize d sentinel = .ok (.kept summary)) (hcomplete : e.isComplete = true)
    (label : String) :
    summary.means.find? label = (e.samples.find? label).bind Sample.mean? := by
  have hkept := Entity.keptAs_of_kept h
  cases hfind : e.samples.find? label with
  | none =>
    rw [OrderedMap.find?_eq_none_iff] at hfind
    rw [← hkept.labels.2] at hfind
    exact OrderedMap.find?_eq_none_iff.2 hfind
  | some sample =>
    have hsample := Entity.isComplete_iff.1 hcomplete label sample hfind
    obtain ⟨m, mean, -, hmean, -, hmeans⟩ := hkept.complete label sample hfind hsample
    rw [hmeans, Option.bind_some, hmean]

end Kept

/-- The mean of finite measurements is a number. -/
theorem Sample.exists_number_mean? {s : Sample} (h : s.isComplete = true)
    (hfinite : ∀ x ∈ s.values, x.isFinite = true) (hlength : s.length < 2 ^ 64) :
    ∃ mean, s.mean? = some mean ∧ mean.isNaN = false := by
  have hne := (isComplete_iff.1 h).1
  refine ⟨_, if_neg (by simpa [isEmpty] using hne), ?_⟩
  exact Binary64.isNaN_div_of_pos (Binary64.isNaN_sum hfinite) (Binary64.ofNat_bounds hlength).1
    (Binary64.value_ofNat_pos (List.length_pos_of_ne_nil hne))

/-! ## Tables of levels -/

/-- The labels of entities, in order of first appearance. -/
def labelsOf (entities : List Entity) : List String :=
  (entities.flatMap fun e => e.samples.keys).eraseDups

/-- The row of a level: the level and the mean of its sample for each label, if it has one. -/
def levelRow (labels : List String) (e : Entity) : Row where
  id := e.id
  cells := .ofOption (e.scalars.find? "complexity") ::
    labels.map fun label => .ofOption ((e.samples.find? label).bind Sample.mean?)

/-- The table has the rows of these entities and a column for each of their labels. -/
structure Dataset.ShowsLevels (ds : Dataset) (entities : List Entity) : Prop where
  columns : ds.columns = "complexity" :: labelsOf entities
  distinct : ds.columns.Nodup
  rows : ds.rows = entities.map (levelRow (labelsOf entities))

/-- Labels are no headers of the column of levels. -/
theorem Entity.IsLevel.label_ne {e : Entity} {records : List Record} {v : ℕ}
    (h : e.IsLevel records v) {label : String} (hlabel : label ∈ e.samples.keys) :
    label ≠ "complexity" := by
  obtain ⟨q, sample, r, -, -, j, commands, -, -, hcommands, -⟩ := (h.label_iff label).1 hlabel
  rintro rfl
  have hdigits : Digits.ofNat commands = "omplexity".toList := by
    have hchars : "complexity".toList = ("c" ++ toString commands).toList :=
      congrArg String.toList hcommands
    have htext : (toString commands).toList = Digits.ofNat commands := String.toList_ofList
    rw [String.toList_append, htext] at hchars
    exact (List.cons.inj hchars).2.symm
  have hdigit : 'o'.isDigit = true := by
    refine Digits.isDigit_ofNat (n := commands) ?_
    rw [hdigits]
    decide
  cases hdigit

/-- Entities of ascending levels are shown in their order. -/
theorem Dataset.exists_showsLevels {records : List Record} {levels : List ℕ}
    {entities : List Entity} {summaries : List EntitySummary} {sentinel : Float}
    (hascending : levels.Pairwise (· < ·))
    (hentities : List.Forall₂ (fun v e => Entity.IsLevel e records v) levels entities)
    (hdiscovery : entities.Pairwise fun a b => a.discovery < b.discovery)
    (hkept : List.Forall₂
      (fun e summary => Entity.summarize e .complexity sentinel = .ok (.kept summary))
      entities summaries) :
    ∃ ds, ofDescriptor .complexity summaries = .ok ds ∧ ds.ShowsLevels entities := by
  have hsummaries : summaries.Pairwise fun a b => a.discovery ≤ b.discovery := by
    refine (pairwise_of_forall₂ hkept hdiscovery).imp ?_
    rintro a b ⟨e, e', he, he', hlt⟩
    rw [(Entity.keptAs_of_kept he).fields.2.1, (Entity.keptAs_of_kept he').fields.2.1]
    exact hlt.le
  have hcell : ∀ {e : Entity} {summary : EntitySummary},
      e.summarize .complexity sentinel = .ok (.kept summary) →
      summary.cell levelColumn = .ofOption (e.scalars.find? "complexity") := by
    intro e summary he
    show Cell.ofOption (summary.scalars.find? "complexity") = _
    rw [(Entity.keptAs_of_kept he).fields.2.2.2]
  have hsorted : summaries.Pairwise fun a b =>
      Cell.le true (a.cell levelColumn) (b.cell levelColumn) = true := by
    refine (pairwise_of_forall₂ hkept (pairwise_of_forall₂ hentities hascending)).imp ?_
    rintro a b ⟨e, e', he, he', v, w, hv, hw, hlt⟩
    have hlevel : ∀ {e : Entity} {v : ℕ}, e.IsLevel records v →
        Cell.ofOption (e.scalars.find? "complexity") = .number (Binary64.ofNat v) := by
      intro e v hv
      have hfind : e.scalars.find? "complexity" = some (Binary64.ofNat v) := by
        rw [hv.scalars, SortedMap.find?_ofList]
        rfl
      rw [hfind]
      exact Cell.ofOption_some (Binary64.isNaN_ofNat v)
    rw [hcell he, hcell he', hlevel hv, hlevel hw]
    exact Binary64.totalLe_ofNat hlt.le
  have hlabels : (summaries.flatMap fun e => e.summaries.keys).eraseDups = labelsOf entities := by
    have hkeys : summaries.map (fun e => e.summaries.keys) =
        entities.map fun e => e.samples.keys :=
      map_eq_of_forall₂ (hkept.imp fun _ _ he => (Entity.keys_of_kept he).1)
    unfold labelsOf
    rw [List.flatMap_def, List.flatMap_def, hkeys]
  have hrows : summaries.map (fun e => (⟨e.id,
      (levelColumn :: (labelsOf entities).map Column.mean).map e.cell⟩ : Row)) =
      entities.map (levelRow (labelsOf entities)) := by
    refine map_eq_of_forall₂ (hkept.imp fun e summary he => ?_)
    have hcomplete := Entity.exists_kept_complexity_iff.1 ⟨summary, he⟩
    unfold levelRow
    rw [List.map_cons, hcell he, List.map_map, (Entity.keptAs_of_kept he).fields.1]
    congr 2
    refine List.map_congr_left fun label _ => ?_
    show Cell.ofOption (summary.means.find? label) = _
    rw [Entity.find?_means_of_kept he hcomplete]
  have hheaders : (levelColumn :: (labelsOf entities).map Column.mean).map Column.header =
      "complexity" :: labelsOf entities := by
    rw [List.map_cons, List.map_map]
    exact congrArg _ (List.map_id _)
  have hbuilt := ofDescriptor_complexity hsummaries hsorted
  simp only [hlabels, hrows, hheaders] at hbuilt
  refine ⟨_, hbuilt, rfl, ?_, rfl⟩
  refine List.nodup_cons.2 ⟨fun hmem => ?_, nodup_eraseDups _⟩
  obtain ⟨e, he, hlabel⟩ := List.mem_flatMap.1 (List.mem_eraseDups.1 hmem)
  obtain ⟨v, -, hv⟩ := exists_mem_of_forall₂ hentities he
  exact hv.label_ne hlabel rfl

/-- Records whose names stand for distinct repetitions of levels give, in whatever order they
come, the same entities: one for every level, in ascending order.  Those whose samples are
complete are kept and shown, in that order, with a column for every label that occurs in them.
Where the documents hold finite numbers, the means are numbers, so a cell is missing only where
there is no sample. -/
theorem levels_of_any_order {records : List Record} {x : Extractor}
    (hdistinct : (records.map fun r => readComplexityName? r.fileName).Nodup)
    (h : (Extractor.ofDescriptor .complexity).ingestAll records = .ok x) :
    ∃ levels entities, x.finish.2 = .ok entities ∧ ListsLevels records levels entities ∧
      (∀ others, others.Perm records →
        ∃ y, (Extractor.ofDescriptor .complexity).ingestAll others = .ok y ∧
          y.finish.2 = .ok entities) ∧
      (∀ sentinel, ∃ sifted ds shown,
        siftEntities .complexity sentinel entities = .ok sifted ∧
          List.Forall₂ (fun e summary =>
              Entity.summarize e .complexity sentinel = .ok (.kept summary))
            (entities.filter Entity.isComplete) sifted.kept ∧
          Dataset.ofDescriptor .complexity sifted.kept = .ok ds ∧
          shown.Sublist levels ∧
          List.Forall₂ (fun v e => Entity.IsLevel e records v) shown
            (entities.filter Entity.isComplete) ∧
          ds.ShowsLevels (entities.filter Entity.isComplete)) ∧
      ((∀ r ∈ records, ∀ j, r.document = .ok j → j.IsFinite) →
        ∀ e ∈ entities.filter Entity.isComplete, ∀ label sample,
          e.samples.find? label = some sample → sample.length < 2 ^ 64 →
          ∃ mean, sample.mean? = some mean ∧ mean.isNaN = false) := by
  obtain ⟨levels, entities, hfinish, hlists, horder⟩ := Extractor.exists_listsLevels hdistinct h
  have hnumbered : Entity.IsNumbered entities := by
    rw [Extractor.eq_entities_of_collected hfinish]
    exact Extractor.isNumbered_of_ingestAll (x := .ofDescriptor .complexity) h
  refine ⟨levels, entities, hfinish, hlists, horder, ?_, ?_⟩
  · intro sentinel
    obtain ⟨sifted, hsifted, hkept⟩ := exists_sifted_complexity sentinel entities
    obtain ⟨shown, hshown, hlevels⟩ :=
      exists_sublist_of_forall₂ hlists.entities Entity.isComplete
    obtain ⟨ds, hds, hshows⟩ := Dataset.exists_showsLevels (hlists.ascending.sublist hshown) hlevels
      (hnumbered.pairwise.filter _) hkept
    exact ⟨sifted, ds, shown, hsifted, hkept, hds, hshown, hlevels, hshows⟩
  · intro hfinite e he label sample hsample hlength
    obtain ⟨he, hcomplete⟩ := List.mem_filter.1 he
    have hsampleComplete := Entity.isComplete_iff.1 hcomplete label sample hsample
    obtain ⟨v, -, hv⟩ := exists_mem_of_forall₂ hlists.entities he
    obtain ⟨q, -, r, hr, -, j, commands, hj, -, -, hread⟩ := (hv.sample_iff label sample).1 hsample
    refine Sample.exists_number_mean? hsampleComplete ?_ hlength
    refine Sample.forall_of_isComplete hsampleComplete fun y hy => ?_
    exact (mem_values_of_readSample hread y hy).imp_right
      (SampleSource.isFinite_numbers (hfinite r hr j hj) y)

/-- A result with one measured time. -/
def timedRecord (fileName : String) (commands : ℕ) (time : Json) : Record :=
  ⟨fileName, fileName, .document (.object [("num_commands", .int commands),
    ("strategy_result", .array [.object [("time", time)]])])⟩

/-- Two levels, the larger one first; of the other a label comes up in two repetitions. -/
def timedRecords : List Record :=
  [timedRecord "r0_v10.json" 3 (.int 8), timedRecord "r1_v2.json" 3 (.int 4),
    timedRecord "r2_v2.json" 1 (.int 6), timedRecord "r0_v2.json" 1 (.int 2)]

theorem timedRecords_shown : ∃ x levels entities,
    (Extractor.ofDescriptor .complexity).ingestAll timedRecords = .ok x ∧
      x.finish.2 = .ok entities ∧ ListsLevels timedRecords levels entities ∧
      (∃ y, (Extractor.ofDescriptor .complexity).ingestAll timedRecords.reverse = .ok y ∧
        y.finish.2 = .ok entities) ∧
      ∃ sifted ds, siftEntities .complexity 10.0 entities = .ok sifted ∧
        Dataset.ofDescriptor .complexity sifted.kept = .ok ds ∧
        ds.columns = ["complexity", "c1", "c3"] ∧ ds.rows.map Row.id = ["2", "10"] := by
  have hall : ((Extractor.ofDescriptor .complexity).ingestAll timedRecords).toOption.any (fun x =>
      x.finish.2.toOption.any fun entities =>
        (entities.filter Entity.isComplete).map Entity.id = ["2", "10"] ∧
          labelsOf (entities.filter Entity.isComplete) = ["c1", "c3"]) = true := by
    decide +kernel
  obtain ⟨x, hx, hfinish⟩ := exists_of_any hall
  obtain ⟨entities, hentities, hshown⟩ := exists_of_any hfinish
  obtain ⟨hids, hlabels⟩ := of_decide_eq_true hshown
  obtain ⟨levels, entities', hentities', hlists, horder, htable, -⟩ :=
    levels_of_any_order (by decide +kernel) hx
  obtain rfl := Except.ok.inj (hentities'.symm.trans hentities)
  obtain ⟨sifted, ds, shown, hsifted, -, hds, -, -, hcolumns, -, hrows⟩ := htable 10.0
  refine ⟨x, levels, entities', hx, hentities, hlists, horder _ (List.reverse_perm _), sifted, ds,
    hsifted, hds, ?_, ?_⟩
  · rw [hcolumns, hlabels]
  · rw [hrows, List.map_map, ← hids]
    rfl

end FigureData
