/-
  A dataset does not depend on the order in which its entities are handed over.

  Columns, ties at zero, rows and side files each go through the entities on their own.  The
  columns and the rows start from the order of discovery, which is the same list for every
  order of the input as long as no two entities share a place of discovery; a count does not
  see the order; and a side file is looked up by an identifier that only one entity has.  With
  a shared place of discovery the input order decides between the two entities, and with a
  shared identifier the last entity lends its side file to both rows.

  Proved:
  * `discoveryOrder_congr`: entities with distinct places have one order of discovery.
  * `Dataset.lastWithId?_eq_some_iff`: with distinct identifiers, an entity is found by its own.
  * `resolvedColumns_congr`, `bothZeroCount_congr`, `Dataset.assemble_congr`,
    `Dataset.withAttachments_congr`: each part of a dataset is the same for every input order.
  * `Dataset.ofDescriptor_congr`: so is the dataset, or the fault in its place.
-/
import FigureData.Descriptor.Catalogue
import FigureData.Proofs.Dataset.RowOrder

namespace FigureData

section InputOrder

variable {entities others : List EntitySummary} (h : entities.Perm others)
include h

/-! ## Columns and counts -/

/-- Entities with distinct places have one order of discovery. -/
theorem discoveryOrder_congr (hplaces : (entities.map EntitySummary.discovery).Nodup) :
    discoveryOrder entities = discoveryOrder others := by
  have hsorted : ∀ es : List EntitySummary,
      (discoveryOrder es).Pairwise fun a b => a.discovery ≤ b.discovery := by
    intro es
    have hpairwise : (discoveryOrder es).Pairwise fun a b =>
        decide (a.discovery ≤ b.discovery) = true :=
      List.pairwise_mergeSort
        (fun a b c hab hbc => by simp only [decide_eq_true_eq] at *; omega)
        (fun a b => by simp only [Bool.or_eq_true, decide_eq_true_eq]; omega) es
    exact hpairwise.imp of_decide_eq_true
  have hperm : (discoveryOrder entities).Perm (discoveryOrder others) :=
    ((List.mergeSort_perm _ _).trans h).trans (List.mergeSort_perm _ _).symm
  refine List.Perm.eq_of_pairwise ?_ (hsorted entities) (hsorted others) hperm
  intro a b ha hb hab hba
  have ha' : a ∈ entities := List.mem_mergeSort.1 ha
  have hb' : b ∈ entities := h.mem_iff.2 (List.mem_mergeSort.1 hb)
  exact List.inj_on_of_nodup_map hplaces ha' hb' (Nat.le_antisymm hab hba)

theorem resolvedColumns_congr (hplaces : (entities.map EntitySummary.discovery).Nodup)
    (d : Descriptor) : d.resolvedColumns entities = d.resolvedColumns others := by
  unfold Descriptor.resolvedColumns discoveredLabels
  rw [discoveryOrder_congr h hplaces]

theorem bothZeroCount_congr (d : Descriptor) :
    bothZeroCount d entities = bothZeroCount d others := by
  funext name
  unfold bothZeroCount
  rw [(h.filter _).length_eq]

/-! ## Tables and side files -/

theorem Dataset.assemble_congr (hplaces : (entities.map EntitySummary.discovery).Nodup)
    (evaluation : Evaluation) (columns : List Column) (sort : Option SortKey) :
    assemble evaluation entities columns sort = assemble evaluation others columns sort := by
  unfold assemble
  rw [discoveryOrder_congr h hplaces]

omit h in
/-- With distinct identifiers, an entity is found by its own. -/
theorem Dataset.lastWithId?_eq_some_iff (hids : (entities.map EntitySummary.id).Nodup)
    {id : String} {e : EntitySummary} :
    lastWithId? entities id = some e ↔ e ∈ entities ∧ e.id = id := by
  unfold lastWithId?
  constructor
  · intro hfind
    refine ⟨List.mem_reverse.1 (List.mem_of_find?_eq_some hfind), ?_⟩
    simpa using List.find?_some hfind
  · rintro ⟨hmem, hid⟩
    obtain ⟨found, hfound⟩ : ∃ found, entities.reverse.find? (fun e => e.id = id) = some found := by
      rw [← Option.isSome_iff_exists, List.find?_isSome]
      exact ⟨e, List.mem_reverse.2 hmem, decide_eq_true hid⟩
    have hfoundId : found.id = id := by simpa using List.find?_some hfound
    have hfoundMem := List.mem_reverse.1 (List.mem_of_find?_eq_some hfound)
    rw [hfound, List.inj_on_of_nodup_map hids hfoundMem hmem (hfoundId.trans hid.symm)]

theorem Dataset.lastWithId?_congr (hids : (entities.map EntitySummary.id).Nodup) :
    lastWithId? entities = lastWithId? others := by
  have hids' : (others.map EntitySummary.id).Nodup := (h.map _).nodup_iff.1 hids
  funext id
  apply Option.ext
  intro e
  rw [lastWithId?_eq_some_iff hids, lastWithId?_eq_some_iff hids', h.mem_iff]

theorem Dataset.withAttachments_congr (hids : (entities.map EntitySummary.id).Nodup)
    (rule : Option AttachmentRule) (d : Dataset) :
    d.withAttachments rule entities = d.withAttachments rule others := by
  unfold withAttachments
  rw [Dataset.lastWithId?_congr h hids]

/-! ## Datasets -/

/-- Handing the entities over in another order changes nothing: the outcome is the same fault,
or the same columns, rows, scalars, branch of the curve and side files. -/
theorem Dataset.ofDescriptor_congr (hplaces : (entities.map EntitySummary.discovery).Nodup)
    (hids : (entities.map EntitySummary.id).Nodup) (d : Descriptor) :
    ofDescriptor d entities = ofDescriptor d others := by
  unfold ofDescriptor
  rw [resolvedColumns_congr h hplaces, Dataset.assemble_congr h hplaces, bothZeroCount_congr h]
  simp only [Dataset.withAttachments_congr h hids]

end InputOrder

/-- An entity with a scalar to sort on and the means of some strategies, each of them an outlier
too. -/
def averagedEntity (id : String) (discovery : Nat) (x : Float) (means : List (String × Float)) :
    EntitySummary where
  id
  discovery
  ideal := none
  summaries := .ofList (means.map fun m => (m.1, { Summary.undefined with outliers := [m.2] }))
  means := .ofList means
  scalars := .ofList [("x", x)]
  comparisons := ∅

/-- Three entities handed over against the order of their discovery; two tie in the scalar, and
the one discovered first has the strategies in another order. -/
def shuffledEntities : List EntitySummary :=
  [averagedEntity "C" 2 1 [("a", 1), ("b", 4)], averagedEntity "B" 1 1 [("a", 1)],
    averagedEntity "A" 0 2 [("b", 3), ("a", 2)]]

/-- A table with columns from the data, a sort key, a scalar and side files. -/
def averagesDescriptor : Descriptor :=
  { Descriptor.bare .complexity [] with
    columns := [.id "network", .scalar "x"]
    sort := some ⟨"x", true⟩
    scalars := [.columnSum "total" "x"]
    attachment := some ⟨"a", "_fliers.csv"⟩ }

theorem shuffledEntities_alike :
    shuffledEntities.Perm shuffledEntities.reverse ∧
      (shuffledEntities.map EntitySummary.discovery).Nodup ∧
      (shuffledEntities.map EntitySummary.id).Nodup ∧
      ∃ ds, Dataset.ofDescriptor averagesDescriptor shuffledEntities = .ok ds ∧
        Dataset.ofDescriptor averagesDescriptor shuffledEntities.reverse = .ok ds := by
  have hperm : shuffledEntities.Perm shuffledEntities.reverse := (List.reverse_perm _).symm
  have hplaces : (shuffledEntities.map EntitySummary.discovery).Nodup := by decide
  have hids : (shuffledEntities.map EntitySummary.id).Nodup := by decide
  have halike := Dataset.ofDescriptor_congr hperm hplaces hids averagesDescriptor
  obtain ⟨_, _, _, -, -, -, hds⟩ :=
    Dataset.ofDescriptor_spec (by decide : averagesDescriptor.namesColumns = true) shuffledEntities
  exact ⟨hperm, hplaces, hids, _, hds, halike ▸ hds⟩

end FigureData
