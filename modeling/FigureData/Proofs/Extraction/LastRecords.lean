/-
  Of the records with one stem, the last one makes the entity.

  Where every record holds all strategies, it brings every sample and every scalar that its
  entity can have, so that nothing of an earlier record is left of them.  The ideal value is kept
  apart: a record that has none leaves the one that is there.

  Proved:
  * `Contribution.addTo_eq`: what a contribution leaves of an entity with the same parts.
  * `find?_enterAll_last`: the samples and the scalars are those of the last contribution.
  * `last_record_counts`: the entities after any accepted records, each compared with what its
    last record gives alone.
  * `earlier_ideal_stays`: an entity that mixes two records.
-/
import FigureData.Proofs.Extraction.Sessions
import FigureData.Proofs.FirstAppearance
import FigureData.Proofs.Run.LastFiles

namespace FigureData

open Extraction Outcome

/-! ## Contributions that overwrite -/

namespace Extraction

/-- The entity of a contribution alone. -/
def Contribution.entity (c : Contribution) : Entity := c.addTo { id := c.id }

/-- A contribution that brings exactly these samples and scalars. -/
structure Contribution.Fills (c : Contribution) (labels names : List String) : Prop where
  labels : c.samples.map Prod.fst = labels
  names : ∀ name, c.scalars.find? name = none ↔ name ∉ names

/-- The scalars of a contribution alone. -/
theorem Contribution.find?_scalars_addTo (c : Contribution) (e : Entity) (name : String) :
    (c.addTo e).scalars.find? name = (c.scalars.find? name).or (e.scalars.find? name) := by
  show (e.scalars.insertAll c.scalars.entries).find? name = _
  rw [SortedMap.find?_insertAll]
  nth_rewrite 2 [← c.scalars.ofList_entries]
  rw [SortedMap.find?_ofList]

/-- A contribution leaves nothing of an entity with the same parts but its ideal value. -/
theorem Contribution.addTo_eq {c : Contribution} {e : Entity}
    (hlabels : e.samples.keys = c.samples.map Prod.fst)
    (hnames : ∀ name, c.scalars.find? name = none → e.scalars.find? name = none) :
    (c.addTo e).samples = c.entity.samples ∧ (c.addTo e).scalars = c.entity.scalars := by
  constructor
  · refine OrderedMap.ext_find? ?_ ?_
    · rw [keys_addTo rfl hlabels]
      exact (keys_addTo_new rfl (hlabels ▸ e.samples.nodup) c.id 0).symm
    · intro label
      show (e.samples.insertAll c.samples).find? label =
        ((∅ : OrderedMap Sample).insertAll c.samples).find? label
      rw [OrderedMap.find?_insertAll, OrderedMap.find?_insertAll]
      cases hlookup : c.samples.reverse.lookup label with
      | some sample => rw [Option.some_or, Option.some_or]
      | none =>
        rw [lookup_eq_none_iff, List.map_reverse, List.mem_reverse, ← hlabels] at hlookup
        rw [OrderedMap.find?_eq_none_iff.2 hlookup]
        rfl
  · refine SortedMap.ext_find? fun name => ?_
    unfold entity
    rw [find?_scalars_addTo, find?_scalars_addTo]
    cases hfind : c.scalars.find? name with
    | some value => rw [Option.some_or, Option.some_or]
    | none =>
      rw [hnames name hfind]
      rfl

/-- The samples and the scalars of an entity are those of its last contribution. -/
theorem find?_enterAll_last {contributions : List Contribution} {labels names : List String}
    (hfills : ∀ c ∈ contributions, c.Fills labels names) (hnodup : labels.Nodup) {id : String}
    {e : Entity} (h : (enterAll contributions ∅).find? id = some e) :
    ∃ c, contributions.reverse.find? (fun c => c.id = id) = some c ∧
      e.samples = c.entity.samples ∧ e.scalars = c.entity.scalars := by
  induction contributions using List.reverseRecOn generalizing e with
  | nil => cases h
  | append_singleton before c ih =>
    obtain ⟨hbefore, hc⟩ := List.forall_mem_append.1 hfills
    rw [List.forall_mem_singleton] at hc
    rw [enterAll_concat, Contribution.enter, OrderedMap.find?_insert] at h
    rw [List.reverse_append, List.reverse_singleton, List.singleton_append, List.find?_cons]
    by_cases hid : id = c.id
    · subst hid
      rw [if_pos rfl, Option.some.injEq] at h
      subst h
      rw [decide_eq_true rfl]
      refine ⟨c, rfl, ?_⟩
      cases hold : (enterAll before ∅).find? c.id with
      | none => exact ⟨rfl, rfl⟩
      | some old =>
        -- The entity that is there has the parts of an earlier contribution.
        obtain ⟨c', hlast, hsamples, hscalars⟩ := ih hbefore hold
        have hc' := hbefore c' (List.mem_reverse.1 (List.mem_of_find?_eq_some hlast))
        rw [Option.getD_some]
        refine Contribution.addTo_eq ?_ ?_
        · rw [hsamples, hc.labels]
          exact keys_addTo_new hc'.labels hnodup c'.id 0
        · intro name hname
          have hname' := (hc'.names name).2 ((hc.names name).1 hname)
          rw [hscalars, Contribution.entity, Contribution.find?_scalars_addTo, hname']
          rfl
    · rw [if_neg hid] at h
      rw [decide_eq_false (Ne.symm hid)]
      exact ih hbefore h

/-- The contribution of a record that holds all strategies. -/
theorem StrategyRules.fills_of_read {rules : StrategyRules}
    (hshared : ∀ s ∈ rules.strategies, s.fileSuffix = none) {r : Record} {c : Contribution}
    (h : rules.read r = .ok (some c)) :
    c.Fills (rules.strategies.map Strategy.label) (rules.scalars.map Prod.fst) := by
  obtain ⟨j, -, hsamples⟩ := read_spec h
  obtain ⟨_, scalars, -, -, -, hscalars, hread⟩ := read_fields h
  constructor
  · rw [labels_of_forall₂ hsamples, held_eq hshared]
  · intro name
    have hnames : scalars.map Prod.fst = rules.scalars.map Prod.fst :=
      map_eq_of_forall₂ (hread.imp fun _ _ hx => hx.1)
    rw [hscalars, SortedMap.find?_ofList, ← hnames, lookup_eq_none_iff, List.map_reverse,
      List.mem_reverse]

end Extraction

/-! ## The last record -/

/-- What an extractor that has seen nothing gives for one record. -/
def Extractor.alone? (x : Extractor) (r : Record) : Option Entity := do
  let y ← (x.fresh.ingest r).toOption
  match ← y.finish.2.toOption with
  | [e] => some e
  | _ => none

/-- The last of several records with a stem. -/
def lastWithStem? (records : List Record) (stem : String) : Option Record :=
  records.reverse.find? fun r => r.stem = stem

/-- The last ideal value among records with a stem, each read alone. -/
def Extractor.lastIdeal? (x : Extractor) (records : List Record) (stem : String) : Option Float :=
  records.reverse.findSome? fun r => if r.stem = stem then (x.alone? r).bind Entity.ideal else none

section Shared

variable {rules : StrategyRules} (hshared : ∀ s ∈ rules.strategies, s.fileSuffix = none)
include hshared

theorem Extractor.alone?_strategies {m : OrderedMap Entity} {r : Record} {c : Contribution}
    (h : rules.read r = .ok (some c)) : (strategies rules m).alone? r = some c.entity := by
  have hread : (strategies rules ∅).ingest r = .ok (.strategies rules (c.enter ∅)) := by
    show (rules.read r).map _ = _
    rw [h]
    rfl
  have hfinish : (strategies rules (c.enter ∅)).finish.2 = .ok [c.entity] :=
    StrategyRules.complete_eq_ok hshared _
  unfold alone?
  rw [show (strategies rules m).fresh = strategies rules ∅ from rfl, hread]
  show (do match ← (strategies rules (c.enter ∅)).finish.2.toOption with
    | [e] => some e
    | _ => none) = _
  rw [hfinish]
  rfl

/-- An entity is that of the last record with its stem, but for its number and its ideal value. -/
theorem eq_alone_of_contributions (hnodup : (rules.strategies.map Strategy.label).Nodup)
    {records : List Record} {contributions : List Contribution}
    (hcontributions : List.Forall₂ (fun r c => rules.read r = .ok (some c)) records contributions)
    {entity : Entity} (hentity : entity ∈ (enterAll contributions ∅).values) :
    ∃ r alone, lastWithStem? records entity.id = some r ∧
      (Extractor.strategies rules ∅).alone? r = some alone ∧
      entity = { alone with
        discovery := entity.discovery
        ideal := (Extractor.strategies rules ∅).lastIdeal? records entity.id } := by
  have hfind := find?_of_mem_values hentity
  have hreverse := List.forall₂_reverse_iff.2 hcontributions
  have hfills : ∀ c ∈ contributions,
      c.Fills (rules.strategies.map Strategy.label) (rules.scalars.map Prod.fst) := by
    intro c hc
    obtain ⟨r, -, hr⟩ := exists_mem_of_forall₂ hcontributions hc
    exact StrategyRules.fills_of_read hshared hr
  obtain ⟨c, hlast, hsamples, hscalars⟩ := find?_enterAll_last hfills hnodup hfind
  obtain ⟨r, hr, hread⟩ := exists_find?_of_forall₂
    (fun r c hc => by rw [StrategyRules.id_eq_stem hshared hc]) hreverse hlast
  have hstem := List.find?_some hlast
  have hid : c.id = entity.id := of_decide_eq_true hstem
  have hideal : entity.ideal = (Extractor.strategies rules ∅).lastIdeal? records entity.id := by
    have hparts := ideal_enterAll contributions entity.id
    rw [hfind, Option.bind_some] at hparts
    rw [hparts]
    refine (findSome?_of_forall₂ ?_ hreverse).symm
    intro r c hc
    rw [Extractor.alone?_strategies hshared hc, StrategyRules.id_eq_stem hshared hc]
    exact congrArg (ite _ · none) Option.or_none
  refine ⟨r, c.entity, hr, Extractor.alone?_strategies hshared hread, ?_⟩
  rw [← hideal]
  show entity = ⟨c.id, entity.discovery, entity.ideal, c.entity.samples, c.entity.scalars⟩
  rw [hid, ← hsamples, ← hscalars]

end Shared

/-- The evaluations whose files hold all strategies. -/
theorem exists_sharedRules {e : Evaluation}
    (he : e = .costBoxplot ∨ e = .schedulingTime ∨ ∃ number, e = .costComparison number) :
    ∃ rules, Extractor.ofDescriptor e.descriptor = .strategies rules ∅ ∧
      (∀ s ∈ rules.strategies, s.fileSuffix = none) ∧ rules.strategies ≠ [] ∧
      (rules.strategies.map Strategy.label).Nodup := by
  rcases he with rfl | rfl | ⟨number, rfl⟩
  · exact ⟨.ofDescriptor .costBoxplot, rfl, by decide, by decide, by decide⟩
  · exact ⟨.ofDescriptor .schedulingTime, rfl, by decide, by decide, by decide⟩
  · exact ⟨.ofDescriptor (.costComparison number), rfl, suffix_costComparison number,
      List.cons_ne_nil _ _, show costLabels.Nodup by decide⟩

/-- After any accepted records there is one entity for every stem, in order of first appearance.
Its samples and scalars are those of the last record with the stem, and its ideal value is the
last that a record with the stem has. -/
theorem last_record_counts {e : Evaluation}
    (he : e = .costBoxplot ∨ e = .schedulingTime ∨ ∃ number, e = .costComparison number)
    {records : List Record} {x : Extractor}
    (h : (Extractor.ofDescriptor e.descriptor).ingestAll records = .ok x) :
    ∃ entities, x.finish.2 = .ok entities ∧
      entities.map Entity.id = (records.map Record.stem).eraseDups ∧
      ∀ entity ∈ entities, ∃ r alone, lastWithStem? records entity.id = some r ∧
        (Extractor.ofDescriptor e.descriptor).alone? r = some alone ∧
        entity = { alone with
          discovery := entity.discovery
          ideal := (Extractor.ofDescriptor e.descriptor).lastIdeal? records entity.id } := by
  obtain ⟨rules, hrules, hshared, hne, hnodup⟩ := exists_sharedRules he
  rw [hrules] at h ⊢
  obtain ⟨haccepted, rfl⟩ := Extractor.ingestAll_strategies_eq_ok_iff.1 h
  have hread : ∀ r ∈ records, ∃ c, rules.read r = .ok (some c) := by
    intro r hr
    obtain ⟨c, hc⟩ := haccepted r hr
    obtain ⟨c', rfl, -⟩ := StrategyRules.exists_contribution hshared hne hc
    exact ⟨c', hc⟩
  have hcontributions := StrategyRules.forall₂_contributions hread
  refine ⟨_, StrategyRules.complete_eq_ok hshared _, ?_, ?_⟩
  · have hids : (rules.contributions records).map Contribution.id = records.map Record.stem :=
      map_eq_of_forall₂ (hcontributions.imp fun _ _ hc => StrategyRules.id_eq_stem hshared hc)
    show (enterAll (rules.contributions records) ∅).values.map Entity.id = _
    rw [map_id_enterAll, keys_enterAll, hids]
    rfl
  · intro entity hentity
    exact eq_alone_of_contributions hshared hnodup hcontributions hentity

/-- A result of a cost comparison; the ideal cost may be unknown. -/
def costRecord (fileName : String) (ideal : Json) : Record :=
  let result := Json.array [.object [("cost", .int 3)]]
  ⟨fileName, fileName, .document (.object [("random_result", result), ("strategy_result", result),
    ("baseline_mif_result", result), ("baseline_mil_result", result), ("ideal_cost", ideal)])⟩

/-- Two networks; the ideal cost of the first is known from one of its files only. -/
def costRecords : List Record :=
  [costRecord "a.x.json" (.int 2), costRecord "b.json" (.int 1), costRecord "a.y.json" .null]

theorem costRecords_counted : ∃ x entities,
    (Extractor.ofDescriptor (.costComparison 6)).ingestAll costRecords = .ok x ∧
      x.finish.2 = .ok entities ∧ entities.map Entity.id = ["a", "b"] ∧
      ∀ entity ∈ entities, ∃ r alone, lastWithStem? costRecords entity.id = some r ∧
        (Extractor.ofDescriptor (.costComparison 6)).alone? r = some alone ∧
        entity.samples = alone.samples := by
  obtain ⟨x, hx, -⟩ := exists_of_any (p := fun _ => true)
    (x := (Extractor.ofDescriptor (.costComparison 6)).ingestAll costRecords) (by decide +kernel)
  obtain ⟨entities, hentities, hids, hlast⟩ :=
    last_record_counts (e := .costComparison 6) (.inr (.inr ⟨6, rfl⟩)) hx
  refine ⟨x, entities, hx, hentities, hids.trans (by decide +kernel), ?_⟩
  intro entity hentity
  obtain ⟨r, alone, hr, halone, heq⟩ := hlast entity hentity
  exact ⟨r, alone, hr, halone, by rw [heq]⟩

/-- An entity with the samples of one record and the ideal value of another. -/
theorem earlier_ideal_stays : ∃ x entity alone,
    (Extractor.ofDescriptor (.costComparison 6)).ingestAll
        [costRecord "a.x.json" (.int 2), costRecord "a.y.json" .null] = .ok x ∧
      x.finish.2 = .ok [entity] ∧ entity.id = (costRecord "a.y.json" .null).stem ∧
      (Extractor.ofDescriptor (.costComparison 6)).alone? (costRecord "a.y.json" .null) =
        some alone ∧ entity.ideal.isSome = true ∧ alone.ideal = none := by
  have hmixed : ((Extractor.ofDescriptor (.costComparison 6)).ingestAll
      [costRecord "a.x.json" (.int 2), costRecord "a.y.json" .null]).toOption.any (fun x =>
        x.finish.2.toOption.any fun entities =>
          entities.map (fun e => (e.id, e.ideal.isSome)) = [("a", true)]) = true := by
    decide +kernel
  have halone : ((Extractor.ofDescriptor (.costComparison 6)).alone?
      (costRecord "a.y.json" .null)).any (fun e => e.ideal.isNone) = true := by
    decide +kernel
  obtain ⟨x, hx, hfinish⟩ := exists_of_any hmixed
  obtain ⟨entities, hentities, hideal⟩ := exists_of_any hfinish
  obtain ⟨entity, rfl, hentity⟩ := List.map_eq_singleton_iff.1 (of_decide_eq_true hideal)
  obtain ⟨hid, hsome⟩ := Prod.mk.inj hentity
  obtain ⟨alone, halone, hnone⟩ := (Option.any_eq_true _ _).1 halone
  exact ⟨x, entity, alone, hx, hentities, hid.trans (by decide +kernel), halone, hsome,
    Option.isNone_iff_eq_none.1 hnone⟩

end FigureData
