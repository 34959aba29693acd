/-
  The files that the entities of a run come from.

  Where every file holds all strategies, a file that is accepted brings every sample of the
  entity that its stem names.  Of the files with one stem only the last one counts, because
  what a file brings overwrites.

  Proved:
  * `mem_acceptedRecords_iff`: a file is accepted exactly when it has a contribution, which is
    made to the entity that its stem names.
  * `mem_ids_iff`: the entities taken in are those that the stems of the accepted files name.
  * `accepted_of_abort`: a run that may not skip files accepts all that it reads.
  * `exists_lastAccepted`: the samples of an entity are read from the last accepted file with
    its identifier as stem.
-/
import FigureData.Proofs.Run.FilledRows
import FigureData.Proofs.Run.InputFiles

namespace FigureData

open Extraction Outcome

/-! ## Accepted files -/

/-- The record of a file, unless it is faulty or an extractor of this kind refuses it. -/
def Intake.accepted? (x : Extractor) (item : Except Fault Record) : Option Record :=
  if (faultOf? x item).isNone then item.toOption else none

/-- The records that an evaluation accepts, in ascending order of the names of their files. -/
def acceptedRecords (ctx : Context) (e : Evaluation) (t : FileTree) : List Record :=
  (inputItems ctx e t).filterMap (Intake.accepted? (.ofDescriptor e.descriptor))

/-- The last record with a stem that an evaluation accepts. -/
def lastAccepted? (ctx : Context) (e : Evaluation) (t : FileTree) (stem : String) : Option Record :=
  (acceptedRecords ctx e t).reverse.find? fun r => r.stem = stem

theorem Intake.accepted?_eq_some_iff {x : Extractor} {item : Except Fault Record} {r : Record} :
    accepted? x item = some r ↔ item = .ok r ∧ faultOf? x item = none := by
  have hrecord : item.toOption = some r ↔ item = .ok r := by
    cases item with
    | ok r' =>
      show some r' = some r ↔ _
      rw [Option.some.injEq, Except.ok.injEq]
    | error fault => exact iff_of_false (fun h => by cases h) (fun h => by cases h)
  unfold accepted?
  rw [Option.ite_none_right_eq_some, Option.isNone_iff_eq_none, hrecord, and_comm]

/-- An extractor by strategies accepts a record that it can read. -/
theorem Intake.accepted?_strategies_iff {rules : StrategyRules} {m : OrderedMap Entity}
    {item : Except Fault Record} {r : Record} :
    accepted? (.strategies rules m) item = some r ↔ item = .ok r ∧ ∃ c, rules.read r = .ok c := by
  rw [accepted?_eq_some_iff]
  apply and_congr_right
  rintro rfl
  rw [faultOf?_eq_none_iff]
  constructor
  · rintro ⟨y, hy⟩
    obtain ⟨c, hc, -⟩ := map_eq_ok hy
    exact ⟨c, hc⟩
  · rintro ⟨c, hc⟩
    show ∃ y, (rules.read r).map _ = .ok y
    rw [hc]
    exact ⟨_, rfl⟩

/-- What is accepted has been read. -/
theorem mem_inputItems_of_accepted {ctx : Context} {e : Evaluation} {t : FileTree} {r : Record}
    (h : r ∈ acceptedRecords ctx e t) : .ok r ∈ inputItems ctx e t := by
  obtain ⟨item, hitem, hr⟩ := List.mem_filterMap.1 h
  rw [← (Intake.accepted?_eq_some_iff.1 hr).1]
  exact hitem

theorem lastAccepted?_mem {ctx : Context} {e : Evaluation} {t : FileTree} {stem : String} {r : Record}
    (h : lastAccepted? ctx e t stem = some r) : r ∈ acceptedRecords ctx e t ∧ r.stem = stem := by
  unfold lastAccepted? at h
  have hstem := List.find?_some h
  exact ⟨List.mem_reverse.1 (List.mem_of_find?_eq_some h), of_decide_eq_true hstem⟩

/-! ## Files that hold all strategies -/

namespace Extraction.StrategyRules

variable {rules : StrategyRules} (hshared : ∀ s ∈ rules.strategies, s.fileSuffix = none)

include hshared

/-- Without suffixes the stem tells the entity. -/
theorem identify_eq_stem (r : Record) : rules.identify r = r.stem := by
  have hnone : rules.strategies.filterMap Strategy.fileSuffix = [] :=
    List.filterMap_eq_nil_iff.2 hshared
  unfold identify
  rw [hnone]
  rfl

theorem id_eq_stem {r : Record} {c : Contribution} (h : rules.read r = .ok (some c)) :
    c.id = r.stem := by
  obtain ⟨-, -, -, hid, -⟩ := read_fields h
  exact hid.trans (identify_eq_stem hshared r)

/-- An accepted file has a contribution, to the entity that its stem names. -/
theorem exists_contribution (hne : rules.strategies ≠ []) {r : Record} {c : Option Contribution}
    (h : rules.read r = .ok c) : ∃ c', c = some c' ∧ c'.id = r.stem := by
  cases hc : c with
  | some c' => exact ⟨c', rfl, id_eq_stem hshared (hc ▸ h)⟩
  | none =>
    subst hc
    have hheld := held_of_read_none h
    rw [held_eq hshared] at hheld
    exact absurd hheld hne

/-- A sample of a contribution is that of the strategy with its label. -/
theorem readSample_of_lookup (hnodup : (rules.strategies.map Strategy.label).Nodup) {r : Record}
    {c : Contribution} (h : rules.read r = .ok (some c)) {s : Strategy} (hs : s ∈ rules.strategies)
    {sample : Sample} (hlookup : c.samples.reverse.lookup s.label = some sample) :
    ∃ j, r.document = .ok j ∧ readSample j s.source r.fileName = .ok sample := by
  obtain ⟨j, hj, hread⟩ := read_spec h
  rw [held_eq hshared] at hread
  have hmem : (s.label, sample) ∈ c.samples := by
    rw [← List.mem_reverse]
    refine (lookup_eq_some_iff ?_).1 hlookup
    rw [List.map_reverse, List.nodup_reverse, labels_of_forall₂ hread]
    exact hnodup
  obtain ⟨s', hs', hlabel, hsource⟩ := exists_mem_of_forall₂ hread hmem
  obtain rfl : s = s' := List.inj_on_of_nodup_map hnodup hs hs' hlabel
  exact ⟨j, hj, hsource⟩

end Extraction.StrategyRules

/-! ## Entities -/

section Shared

variable {ctx : Context} {e : Evaluation} {t : FileTree} {intake : Intake} {entities : List Entity}
  (hrules : Extractor.ofDescriptor e.descriptor = .strategies (.ofDescriptor e.descriptor) ∅)
  (hshared : ∀ s ∈ e.descriptor.strategies, s.fileSuffix = none)

include hrules hshared

/-- A file is accepted exactly when it has a contribution, which is made to the entity that its
stem names. -/
theorem mem_acceptedRecords_iff (hne : e.descriptor.strategies ≠ []) {r : Record} :
    r ∈ acceptedRecords ctx e t ↔ .ok r ∈ inputItems ctx e t ∧
      ∃ c, (StrategyRules.ofDescriptor e.descriptor).read r = .ok (some c) ∧ c.id = r.stem := by
  unfold acceptedRecords
  rw [hrules, List.mem_filterMap]
  constructor
  · rintro ⟨item, hitem, hr⟩
    obtain ⟨rfl, c, hc⟩ := Intake.accepted?_strategies_iff.1 hr
    obtain ⟨c', rfl, hid⟩ := StrategyRules.exists_contribution hshared hne hc
    exact ⟨hitem, c', hc, hid⟩
  · rintro ⟨hr, c, hc, -⟩
    exact ⟨.ok r, hr, Intake.accepted?_strategies_iff.2 ⟨rfl, _, hc⟩⟩

/-- The entities taken in are those that the stems of the accepted files name, each once. -/
theorem mem_ids_iff (hne : e.descriptor.strategies ≠ [])
    (h : takeIn ctx e t = .ok (intake, entities)) :
    (entities.map Entity.id).Nodup ∧
      ∀ id, id ∈ entities.map Entity.id ↔ ∃ r ∈ acceptedRecords ctx e t, r.stem = id := by
  obtain ⟨rfl, -⟩ := takeIn_enters hrules h
  rw [map_id_enterAll]
  refine ⟨OrderedMap.nodup _, ?_⟩
  intro id
  have hempty : id ∉ (∅ : OrderedMap Entity).keys := List.not_mem_nil
  rw [mem_keys_enterAll, or_iff_left hempty]
  constructor
  · rintro ⟨c, hc, rfl⟩
    obtain ⟨item, hitem, hc⟩ := List.mem_filterMap.1 hc
    obtain ⟨r, rfl, hread⟩ := StrategyRules.contribution?_eq_some_iff.1 hc
    have hid := StrategyRules.id_eq_stem hshared hread
    exact ⟨r, (mem_acceptedRecords_iff hrules hshared hne).2 ⟨hitem, c, hread, hid⟩, hid.symm⟩
  · rintro ⟨r, hr, rfl⟩
    obtain ⟨hitem, c, hread, hid⟩ := (mem_acceptedRecords_iff hrules hshared hne).1 hr
    refine ⟨c, List.mem_filterMap.2 ⟨.ok r, hitem, ?_⟩, hid⟩
    exact StrategyRules.contribution?_eq_some_iff.2 ⟨r, rfl, hread⟩

/-- The samples of an entity are read from the last accepted file with its identifier as
stem. -/
theorem exists_lastAccepted (hnodup : (e.descriptor.strategies.map Strategy.label).Nodup)
    (h : takeIn ctx e t = .ok (intake, entities)) {entity : Entity} (hentity : entity ∈ entities)
    {s : Strategy} (hs : s ∈ e.descriptor.strategies) :
    ∃ r j sample, lastAccepted? ctx e t entity.id = some r ∧ r.document = .ok j ∧
      entity.samples.find? s.label = some sample ∧
      readSample j s.source r.fileName = .ok sample := by
  obtain ⟨sample, hsample⟩ := (isMeasured_of_takeIn hrules h entity hentity).samples s hs
  obtain ⟨rfl, -⟩ := takeIn_enters hrules h
  have hfound := sample_enterAll ((inputItems ctx e t).filterMap
    (StrategyRules.ofDescriptor e.descriptor).contribution?) entity.id s.label
  rw [find?_of_mem_values hentity, Option.bind_some, hsample] at hfound
  obtain ⟨before, r, c, after, hitems, hread, hid, hlookup, hafter⟩ := exists_last hfound.symm
  have hne : e.descriptor.strategies ≠ [] := List.ne_nil_of_mem hs
  obtain ⟨j, hj, hsource⟩ :=
    StrategyRules.readSample_of_lookup hshared hnodup hread hs hlookup
  refine ⟨r, j, sample, ?_, hj, hsample, hsource⟩
  have haccepted : Intake.accepted? (.ofDescriptor e.descriptor) (.ok r) = some r := by
    rw [hrules]
    exact Intake.accepted?_strategies_iff.2 ⟨rfl, _, hread⟩
  -- A later file under the stem would bring the sample, too.
  have hlast : (after.filterMap (Intake.accepted? (.ofDescriptor e.descriptor))).reverse.find?
      (fun r => r.stem = entity.id) = none := by
    rw [List.find?_eq_none]
    intro r' hr' hstem
    rw [List.mem_reverse, List.mem_filterMap] at hr'
    obtain ⟨item, hitem, hr'⟩ := hr'
    rw [hrules] at hr'
    obtain ⟨rfl, c', hread'⟩ := Intake.accepted?_strategies_iff.1 hr'
    obtain ⟨c', rfl, hid'⟩ := StrategyRules.exists_contribution hshared hne hread'
    obtain ⟨sample', hsample'⟩ := exists_lookup_sample hread' hs (hshared s hs)
    rw [hafter r' c' hitem hread' (hid'.trans (of_decide_eq_true hstem))] at hsample'
    cases hsample'
  have hstem : r.stem = entity.id := (StrategyRules.id_eq_stem hshared hread).symm.trans hid
  unfold lastAccepted? acceptedRecords
  rw [hitems, List.filterMap_append, List.filterMap_cons_some haccepted, List.reverse_append,
    List.reverse_cons, List.find?_append, List.find?_append, hlast, Option.none_or,
    List.find?_singleton, if_pos (decide_eq_true hstem), Option.some_or]

end Shared

/-! ## Runs that may not skip files -/

/-- A run that may not skip files accepts all that it reads. -/
theorem accepted_of_abort {ctx : Context} {e : Evaluation} {t : FileTree} {intake : Intake}
    {entities : List Entity} {l : Loader} (he : e.descriptor.filePolicy = .abort)
    (hl : Loader.ofDescriptor (ctx.resultFolder e) e.descriptor = .ok l)
    (h : takeIn ctx e t = .ok (intake, entities)) :
    intake.inputFiles = (matchingFiles ctx e t).length ∧ intake.skipped = [] ∧
      List.Forall₂ (fun f r => l.read f.1 f.2 = .ok r) (matchingFiles ctx e t)
        (acceptedRecords ctx e t) := by
  obtain ⟨hintake, -⟩ := takeIn_spec h
  rw [he, inputItems_eq hl] at hintake
  obtain ⟨hcount, hskipped, haccepted⟩ := Intake.takeAll_abort hintake
  rw [List.length_map] at hcount
  refine ⟨hcount.trans (Nat.zero_add _), hskipped, ?_⟩
  unfold acceptedRecords
  rw [inputItems_eq hl]
  generalize matchingFiles ctx e t = files at haccepted ⊢
  induction files with
  | nil => exact .nil
  | cons f rest ih =>
    rw [List.map_cons, List.forall_mem_cons] at haccepted
    obtain ⟨y, hy⟩ := Intake.faultOf?_eq_none_iff.1 haccepted.1
    obtain ⟨r, hr, -⟩ := bind_eq_ok hy
    rw [List.map_cons, List.filterMap_cons_some
      (Intake.accepted?_eq_some_iff.2 ⟨hr, haccepted.1⟩)]
    exact .cons hr (ih haccepted.2)

end FigureData
