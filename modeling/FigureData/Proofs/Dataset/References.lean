/-
  References of a descriptor to columns, and the side files of a dataset.

  Building a dataset can fail in two places only: where the sort key is looked up among the
  columns, and where a scalar is computed from one.  The sort key comes first, then the scalars in
  their order, so the fault is about the first of them that names no column.  Side files are looked
  up by identifier after the rows have been sorted; with distinct identifiers each row gets the one
  of its own entity.

  Proved:
  * `Dataset.foldlM_applyScalar_eq_error_iff`: scalars fail at the first that names no column.
  * `Dataset.ofDescriptor_eq_error_iff`: a dataset fails at the first reference that names no column.
  * `Dataset.attachments_of_ofDescriptor`: one side file per row, that of its entity.
  * `Dataset.built_unless_dangling`: both, and that no evaluation of the catalogue has such a
    reference.
-/
import FigureData.Proofs.Dataset.InputOrder

namespace FigureData

open Outcome

/-! ## References -/

/-- The fault is about the first reference of a descriptor that is not among the headers. -/
inductive Descriptor.Dangles (d : Descriptor) (headers : List String) : Fault → Prop
  | sort {key : SortKey} (hkey : d.sort = some key) (h : key.column ∉ headers) :
      Dangles d headers (.unknownSortColumn key.column)
  | scalar {rule : ScalarRule} (hsort : ∀ key, d.sort = some key → key.column ∈ headers)
      (h : d.scalars.find? (fun rule => decide (rule.column ∉ headers)) = some rule) :
      Dangles d headers (.unknownColumn rule.column)

namespace Dataset

theorem assemble_of_dangling (evaluation : Evaluation) (entities : List EntitySummary)
    {columns : List Column} {key : SortKey} (h : key.column ∉ columns.map Column.header) :
    assemble evaluation entities columns (some key) = .error (.unknownSortColumn key.column) := by
  have hfind : columns.find? (fun c => c.header = key.column) = none := by
    rw [List.find?_eq_none]
    intro column hcolumn hheader
    exact h (List.mem_map.2 ⟨column, hcolumn, of_decide_eq_true hheader⟩)
  unfold assemble applySort
  simp only [hfind]
  rfl

theorem applyScalar_of_dangling (ties : String → Nat) {d : Dataset} {rule : ScalarRule}
    (h : rule.column ∉ d.columns) :
    d.applyScalar ties rule = .error (.unknownColumn rule.column) := by
  have hindex : d.columnIndex? rule.column = none := by
    unfold columnIndex?
    rw [List.findIdx?_eq_none_iff]
    intro column hcolumn
    exact decide_eq_false fun heq => h (heq ▸ hcolumn)
  unfold applyScalar columnValues
  rw [hindex]
  rfl

/-- Scalars fail at the first rule that names no column of the table. -/
theorem foldlM_applyScalar_eq_error_iff (ties : String → Nat) {rules : List ScalarRule}
    {d : Dataset} {fault : Fault} :
    rules.foldlM (applyScalar ties) d = .error fault ↔
      ∃ rule, rules.find? (fun rule => decide (rule.column ∉ d.columns)) = some rule ∧
        fault = .unknownColumn rule.column := by
  induction rules generalizing d with
  | nil =>
    constructor
    · intro h
      cases h
    · rintro ⟨rule, h, -⟩
      cases h
  | cons rule rest ih =>
    rw [List.foldlM_cons, List.find?_cons]
    by_cases hrule : rule.column ∈ d.columns
    · obtain ⟨next, hnext, hcolumns, -⟩ := applyScalar_spec ties hrule
      rw [hnext, decide_eq_false (not_not.2 hrule), ← hcolumns]
      exact ih
    · rw [applyScalar_of_dangling ties hrule, decide_eq_true hrule]
      constructor
      · intro h
        exact ⟨rule, rfl, (Except.error.inj h).symm⟩
      · rintro ⟨found, hfound, rfl⟩
        cases hfound
        rfl

/-- A dataset fails at the first reference that names no column of it. -/
theorem ofDescriptor_eq_error_iff {d : Descriptor} {entities : List EntitySummary} {fault : Fault} :
    ofDescriptor d entities = .error fault ↔
      d.Dangles ((d.resolvedColumns entities).map Column.header) fault := by
  unfold ofDescriptor
  by_cases hsort : ∀ key, d.sort = some key →
      key.column ∈ (d.resolvedColumns entities).map Column.header
  · obtain ⟨ordered, -, hassemble⟩ := assemble_spec d.evaluation hsort entities
    rw [hassemble]
    show (d.scalars.foldlM (applyScalar (bothZeroCount d entities)) _ >>= _) = _ ↔ _
    constructor
    · intro h
      rcases bind_eq_error h with h | ⟨complete, -, h⟩
      · obtain ⟨rule, hfind, rfl⟩ := (foldlM_applyScalar_eq_error_iff _).1 h
        exact .scalar hsort hfind
      · cases h
    · intro h
      cases h with
      | sort hkey hcolumn => exact absurd (hsort _ hkey) hcolumn
      | scalar _ hfind =>
        rw [(foldlM_applyScalar_eq_error_iff _).2 ⟨_, hfind, rfl⟩]
        rfl
  · obtain ⟨key, hkey⟩ := not_forall.1 hsort
    obtain ⟨hkey, hcolumn⟩ := Classical.not_imp.1 hkey
    rw [hkey, assemble_of_dangling d.evaluation entities hcolumn]
    constructor
    · intro h
      rw [← Except.error.inj h]
      exact .sort hkey hcolumn
    · intro h
      cases h with
      | sort hkey' _ =>
        rw [hkey] at hkey'
        cases hkey'
        rfl
      | scalar hsort' _ => exact absurd hsort' hsort

end Dataset

/-! ## Side files -/

/-- The side file of an entity: it has its name, and lists the outliers of one strategy, or
nothing where the entity does not have the strategy. -/
structure Attachment.ListsOutliers (a : Attachment) (rule : AttachmentRule) (e : EntitySummary) :
    Prop where
  fileName : a.fileName = e.id ++ rule.suffix
  outliers : ∀ summary, e.summaries.find? rule.strategy = some summary →
    a.values = summary.outliers
  nothing : e.summaries.find? rule.strategy = none → a.values = []

namespace Dataset

theorem listsOutliers_attachmentOf (rule : AttachmentRule) (e : EntitySummary) :
    (attachmentOf rule e).ListsOutliers rule e where
  fileName := rfl
  outliers summary h := by
    unfold attachmentOf
    rw [h]
    rfl
  nothing h := by
    unfold attachmentOf
    rw [h]
    rfl

/-- What is found for the row of every entity is listed in the order of the rows. -/
theorem filterMap_rowsOf {β : Type} {columns : List Column} {ordered : List EntitySummary}
    {f : Row → Option β} {g : EntitySummary → β}
    (h : ∀ e ∈ ordered, ∀ i, f (e.rowAt columns i) = some (g e)) :
    (rowsOf columns ordered).filterMap f = ordered.map g := by
  have hrows : ∀ x ∈ ordered.zipIdx, f (x.1.rowAt columns x.2) = some (g x.1) :=
    fun x hx => h x.1 (List.fst_mem_of_mem_zipIdx hx) x.2
  unfold rowsOf
  rw [List.filterMap_map]
  calc
    ordered.zipIdx.filterMap (f ∘ fun x => x.1.rowAt columns x.2)
    _ = ordered.zipIdx.filterMap (some ∘ fun x => g x.1) := List.filterMap_congr hrows
    _ = (ordered.zipIdx.map Prod.fst).map g := by
      rw [List.filterMap_eq_map, List.map_map]
      rfl
    _ = ordered.map g := by rw [List.zipIdx_map_fst]

/-- With distinct identifiers there is one side file for every row, in their order: that of the
entity which the row shows. -/
theorem attachments_of_ofDescriptor {d : Descriptor} {entities : List EntitySummary} {ds : Dataset}
    {rule : AttachmentRule} (h : ofDescriptor d entities = .ok ds) (hrule : d.attachment = some rule)
    (hids : (entities.map EntitySummary.id).Nodup) :
    ∃ ordered : List EntitySummary, ordered.Perm entities ∧
      ds.rows = rowsOf (d.resolvedColumns entities) ordered ∧
      ds.attachments = ordered.map (attachmentOf rule) := by
  obtain ⟨ordered, table, complete, hperm, rfl, hcomplete, rfl⟩ := ofDescriptor_stages h
  obtain ⟨-, hrows⟩ := foldlM_applyScalar_fields hcomplete
  have hfound : ∀ e ∈ ordered, ∀ i,
      (lastWithId? entities (e.rowAt (d.resolvedColumns entities) i).id).map (attachmentOf rule) =
        some (attachmentOf rule e) := by
    intro e he i
    show (lastWithId? entities e.id).map (attachmentOf rule) = _
    rw [(lastWithId?_eq_some_iff hids).2 ⟨hperm.mem_iff.1 he, rfl⟩]
    rfl
  obtain ⟨-, hrows', -, -⟩ := withAttachments_fields d.attachment entities complete
  refine ⟨ordered, hperm, hrows'.trans hrows, ?_⟩
  rw [hrule]
  show complete.rows.filterMap _ = _
  rw [hrows]
  exact filterMap_rowsOf hfound

/-- A dataset is built unless the sort key or a scalar names no column of it, and the fault is about
the first that does not.  In the catalogue all of them name columns.  Where there are side files and
identifiers are distinct, every row has one, with the outliers of the entity which the row shows. -/
theorem built_unless_dangling (d : Descriptor) (entities : List EntitySummary) :
    (∀ fault, ofDescriptor d entities = .error fault ↔
      d.Dangles ((d.resolvedColumns entities).map Column.header) fault) ∧
    (∀ e : Evaluation, ∃ ds, ofDescriptor e.descriptor entities = .ok ds) ∧
    ∀ ds rule, ofDescriptor d entities = .ok ds → d.attachment = some rule →
      (entities.map EntitySummary.id).Nodup →
      ∃ ordered : List EntitySummary, ordered.Perm entities ∧
        ds.rows = rowsOf (d.resolvedColumns entities) ordered ∧
        List.Forall₂ (fun e a => a.ListsOutliers rule e) ordered ds.attachments := by
  refine ⟨fun fault => ofDescriptor_eq_error_iff, fun e => ?_, fun ds rule h hrule hids => ?_⟩
  · obtain ⟨_, _, _, -, -, -, hbuilt⟩ := ofDescriptor_spec (namesColumns_descriptor e) entities
    exact ⟨_, hbuilt⟩
  · obtain ⟨ordered, hperm, hrows, hattachments⟩ := attachments_of_ofDescriptor h hrule hids
    refine ⟨ordered, hperm, hrows, ?_⟩
    rw [hattachments, List.forall₂_map_right_iff, List.forall₂_same]
    exact fun e _ => listsOutliers_attachmentOf rule e

/-- Boxes that are sorted on a column which nobody declares. -/
def unsortableDescriptor : Descriptor :=
  { Descriptor.costBoxplot with sort := some ⟨"mode", true⟩ }

/-- Of two scalars, the second is taken from a column which nobody declares. -/
def uncountableDescriptor : Descriptor :=
  { Descriptor.costBoxplot with
    scalars := [.columnSum "total" "ideal", .columnMedian "middle" "mode"] }

theorem built_of_shuffledEntities :
    ofDescriptor unsortableDescriptor shuffledEntities = .error (.unknownSortColumn "mode") ∧
      ofDescriptor uncountableDescriptor shuffledEntities = .error (.unknownColumn "mode") ∧
      (shuffledEntities.map EntitySummary.id).Nodup ∧
      ∃ ds, ofDescriptor averagesDescriptor shuffledEntities = .ok ds ∧
        ∃ ordered : List EntitySummary, ordered.Perm shuffledEntities ∧
          ds.rows = rowsOf (averagesDescriptor.resolvedColumns shuffledEntities) ordered ∧
          List.Forall₂ (fun e a => a.ListsOutliers ⟨"a", "_fliers.csv"⟩ e) ordered
            ds.attachments := by
  have hsort := (built_unless_dangling unsortableDescriptor shuffledEntities).1
    (.unknownSortColumn "mode")
  have hscalar := (built_unless_dangling uncountableDescriptor shuffledEntities).1
    (.unknownColumn "mode")
  have hkey : ∀ key, uncountableDescriptor.sort = some key → key.column ∈
      (uncountableDescriptor.resolvedColumns shuffledEntities).map Column.header := by
    rintro _ ⟨⟩
    decide
  have hids : (shuffledEntities.map EntitySummary.id).Nodup := by decide
  obtain ⟨_, _, _, -, -, -, hds⟩ :=
    ofDescriptor_spec (by decide : averagesDescriptor.namesColumns = true) shuffledEntities
  refine ⟨hsort.2 (@Descriptor.Dangles.sort _ _ ⟨"mode", true⟩ rfl (by decide)),
    hscalar.2 (@Descriptor.Dangles.scalar _ _ (.columnMedian "middle" "mode") hkey ?_), hids, _, hds,
    (built_unless_dangling averagesDescriptor shuffledEntities).2.2 _ _ hds rfl hids⟩
  decide

end Dataset

end FigureData
