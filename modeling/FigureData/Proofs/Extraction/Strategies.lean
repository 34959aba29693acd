/-
  The samples of entities that are collected strategy by strategy.

  Whatever the order of the documents, and however often one identifier returns, an
  entity holds samples that were read from documents, under the labels that its documents
  hold.

  Proved:
  * `StrategyRules.read_spec`, `StrategyRules.read_fields`: what a contribution takes from its
    document.
  * `Contribution.forall_enter`: a property of all entities is kept by a contribution that
    keeps it in its own entity.
  * `keys_addTo`, `forall_samples_addTo`: labels and samples after a contribution.
  * `StrategyRules.complete_eq_ok`: without files of their own, strategies are never missing;
    `StrategyRules.complete_spec`: complete entities lack none that has files of its own;
    `StrategyRules.complete_fault`: which one the fault is about.
-/
import FigureData.Extraction.Strategies
import FigureData.Proofs.Maps
import FigureData.Proofs.Outcome

namespace FigureData.Extraction

open Outcome

/-! ## Contributions -/

/-- The sample `x` was read from the document `j` for the strategy `s`. -/
def ReadFrom (j : Json) (file : String) (s : Strategy) (x : String × Sample) : Prop :=
  x.1 = s.label ∧ readSample j s.source file = .ok x.2

/-- The strategies that a file holds. -/
def StrategyRules.held (rules : StrategyRules) (file : String) : List Strategy :=
  rules.strategies.filter fun s => StrategyRules.applies s file

/-- The samples of a contribution are those of its document. -/
theorem StrategyRules.read_spec {rules : StrategyRules} {r : Record} {c : Contribution}
    (h : rules.read r = .ok (some c)) :
    ∃ j, r.document = .ok j ∧
      List.Forall₂ (ReadFrom j r.fileName) (rules.held r.fileName) c.samples := by
  unfold StrategyRules.read at h
  obtain ⟨j, hj, h⟩ := bind_eq_ok h
  obtain ⟨samples, hsamples, h⟩ := bind_eq_ok h
  split at h
  · cases h
  obtain ⟨ideal, -, h⟩ := bind_eq_ok h
  obtain ⟨scalars, -, h⟩ := bind_eq_ok h
  cases h
  refine ⟨j, hj, (mapM_eq_ok hsamples).imp ?_⟩
  intro s x hx
  obtain ⟨sample, hsample, hx⟩ := bind_eq_ok hx
  cases hx
  exact ⟨rfl, hsample⟩

/-- A scalar was read from the document at its pointer. -/
def ScalarReadFrom (j : Json) (file : String) (declared : String × String) (x : String × Float) :
    Prop :=
  x.1 = declared.1 ∧ requireNumber j declared.2 file = .ok x.2

/-- What else a contribution takes from its record. -/
theorem StrategyRules.read_fields {rules : StrategyRules} {r : Record} {c : Contribution}
    (h : rules.read r = .ok (some c)) :
    ∃ j scalars, r.document = .ok j ∧ c.id = rules.identify r ∧
      rules.readIdeal j r.fileName = .ok c.ideal ∧ c.scalars = .ofList scalars ∧
      List.Forall₂ (ScalarReadFrom j r.fileName) rules.scalars scalars := by
  unfold StrategyRules.read at h
  obtain ⟨j, hj, h⟩ := bind_eq_ok h
  obtain ⟨samples, -, h⟩ := bind_eq_ok h
  split at h
  · cases h
  obtain ⟨ideal, hideal, h⟩ := bind_eq_ok h
  obtain ⟨scalars, hscalars, h⟩ := bind_eq_ok h
  cases h
  unfold StrategyRules.readScalars at hscalars
  obtain ⟨pairs, hpairs, hscalars⟩ := bind_eq_ok hscalars
  cases hscalars
  refine ⟨j, pairs, hj, rfl, hideal, rfl, (mapM_eq_ok hpairs).imp ?_⟩
  intro declared x hx
  obtain ⟨value, hvalue, hx⟩ := bind_eq_ok hx
  cases hx
  exact ⟨rfl, hvalue⟩

theorem labels_of_forall₂ {j : Json} {file : String} {strategies : List Strategy}
    {samples : List (String × Sample)} (h : List.Forall₂ (ReadFrom j file) strategies samples) :
    samples.map Prod.fst = strategies.map Strategy.label :=
  map_eq_of_forall₂ (h.imp fun _ _ hx => hx.1)

/-- A record that contributes nothing holds no strategy. -/
theorem StrategyRules.held_of_read_none {rules : StrategyRules} {r : Record}
    (h : rules.read r = .ok none) : rules.held r.fileName = [] := by
  unfold StrategyRules.read at h
  obtain ⟨j, -, h⟩ := bind_eq_ok h
  obtain ⟨samples, hsamples, h⟩ := bind_eq_ok h
  have hlength : (rules.held r.fileName).length = samples.length :=
    (mapM_eq_ok hsamples).length_eq
  split at h
  next hempty => rwa [List.isEmpty_iff.1 hempty, List.length_nil, List.length_eq_zero_iff] at hlength
  next =>
    obtain ⟨ideal, -, h⟩ := bind_eq_ok h
    obtain ⟨scalars, -, h⟩ := bind_eq_ok h
    cases h

/-- Without files of their own, every file holds all strategies. -/
theorem StrategyRules.held_eq {rules : StrategyRules}
    (h : ∀ s ∈ rules.strategies, s.fileSuffix = none) (file : String) :
    rules.held file = rules.strategies := by
  apply List.filter_eq_self.2
  intro s hs
  unfold StrategyRules.applies
  rw [h s hs]

/-! ## Entities -/

/-- A property of all entities is kept by a contribution that keeps it in its own entity. -/
theorem Contribution.forall_enter {P : Entity → Prop} {c : Contribution} {m : OrderedMap Entity}
    (hm : ∀ e ∈ m.values, P e) (hnew : ∀ i, P (c.addTo { id := c.id, discovery := i }))
    (hadd : ∀ e, P e → P (c.addTo e)) : ∀ e ∈ (c.enter m).values, P e := by
  intro e he
  obtain ⟨x, hx, rfl⟩ := List.mem_map.1 he
  rcases mem_putEntry hx with rfl | hx
  · show P (c.addTo ((m.find? c.id).getD { id := c.id, discovery := m.size }))
    cases hfind : m.find? c.id with
    | none => exact hnew m.size
    | some old =>
      exact hadd old (hm old (List.mem_map.2 ⟨_, OrderedMap.find?_eq_some_iff.1 hfind, rfl⟩))
  · exact hm x.2 (List.mem_map.2 ⟨x, hx, rfl⟩)

/-- The first contribution to an entity brings its labels, in their order. -/
theorem keys_addTo_new {c : Contribution} {labels : List String}
    (hc : c.samples.map Prod.fst = labels) (hnodup : labels.Nodup) (id : String) (i : ℕ) :
    (c.addTo { id, discovery := i }).samples.keys = labels := by
  subst hc
  exact OrderedMap.keys_insertAll_empty c.samples hnodup

/-- A further contribution with the same labels keeps them. -/
theorem keys_addTo {c : Contribution} {labels : List String}
    (hc : c.samples.map Prod.fst = labels) {e : Entity} (he : e.samples.keys = labels) :
    (c.addTo e).samples.keys = labels := by
  rw [← he]
  apply OrderedMap.keys_insertAll_of_subset e.samples c.samples
  intro x hx
  rw [he, ← hc]
  exact List.mem_map_of_mem hx

/-- Every sample was there before or was contributed. -/
theorem forall_samples_addTo {Q : String × Sample → Prop} {c : Contribution}
    (hc : ∀ x ∈ c.samples, Q x) {e : Entity} (he : ∀ x ∈ e.samples.entries, Q x) :
    ∀ x ∈ (c.addTo e).samples.entries, Q x := by
  intro x hx
  rcases OrderedMap.mem_insertAll hx with hx | hx
  · exact he x hx
  · exact hc x hx

/-- Without files of their own, strategies are never missing. -/
theorem StrategyRules.complete_eq_ok {rules : StrategyRules}
    (h : ∀ s ∈ rules.strategies, s.fileSuffix = none) (entities : List Entity) :
    rules.complete entities = .ok entities := by
  have hnone : entities.findSome? (missingStrategy? rules.strategies) = none := by
    apply List.findSome?_eq_none_iff.2
    intro e _
    apply List.findSome?_eq_none_iff.2
    intro s hs
    rw [h s hs]
  unfold StrategyRules.complete
  rw [hnone]

/-- An entity that lacks nothing has a sample for every strategy with files of its own. -/
theorem contains_of_missingStrategy?_eq_none {strategies : List Strategy} {e : Entity}
    (h : missingStrategy? strategies e = none) :
    ∀ s ∈ strategies, s.fileSuffix ≠ none → e.samples.contains s.label = true := by
  intro s hs hsuffix
  have hstrategy := List.findSome?_eq_none_iff.1 h s hs
  split at hstrategy
  · split_ifs at hstrategy with hcontains
    exact hcontains
  next hnone => exact absurd hnone hsuffix

/-- The fault of an entity is about the first such strategy that it lacks. -/
theorem missingStrategy?_eq_some {strategies : List Strategy} {e : Entity} {fault : Fault}
    (h : missingStrategy? strategies e = some fault) :
    ∃ had s rest suffix, strategies = had ++ s :: rest ∧ s.fileSuffix = some suffix ∧
      (∀ s' ∈ had, s'.fileSuffix ≠ none → e.samples.contains s'.label = true) ∧
      e.samples.contains s.label = false ∧ fault = .missingStrategyFile s.label e.id suffix := by
  obtain ⟨had, s, rest, hstrategies, hs, hhad⟩ := List.findSome?_eq_some_iff.1 h
  split at hs
  next suffix hsuffix =>
    split_ifs at hs with hcontains
    exact ⟨had, s, rest, suffix, hstrategies, hsuffix,
      contains_of_missingStrategy?_eq_none (List.findSome?_eq_none_iff.2 hhad),
      Bool.not_eq_true _ ▸ hcontains, (Option.some.inj hs).symm⟩
  next => cases hs

/-- Completeness leaves the entities as they are: each has a sample of every strategy with
files of its own. -/
theorem StrategyRules.complete_spec {rules : StrategyRules} {entities complete : List Entity}
    (h : rules.complete entities = .ok complete) :
    complete = entities ∧ ∀ e ∈ entities, ∀ s ∈ rules.strategies, s.fileSuffix ≠ none →
      e.samples.contains s.label = true := by
  unfold StrategyRules.complete at h
  split at h
  · cases h
  next hnone =>
    cases h
    exact ⟨rfl, fun e he =>
      contains_of_missingStrategy?_eq_none (List.findSome?_eq_none_iff.1 hnone e he)⟩

/-- The first entity that lacks a strategy makes the fault, with the first strategy that it
lacks. -/
theorem StrategyRules.complete_fault {rules : StrategyRules} {entities : List Entity} {fault : Fault}
    (h : rules.complete entities = .error fault) :
    ∃ before e after, entities = before ++ e :: after ∧
      (∀ e' ∈ before, ∀ s ∈ rules.strategies, s.fileSuffix ≠ none →
        e'.samples.contains s.label = true) ∧
      ∃ had s rest suffix, rules.strategies = had ++ s :: rest ∧ s.fileSuffix = some suffix ∧
        (∀ s' ∈ had, s'.fileSuffix ≠ none → e.samples.contains s'.label = true) ∧
        e.samples.contains s.label = false ∧ fault = .missingStrategyFile s.label e.id suffix := by
  unfold StrategyRules.complete at h
  split at h
  next found hfound =>
    cases h
    obtain ⟨before, e, after, rfl, hmissing, hbefore⟩ := List.findSome?_eq_some_iff.1 hfound
    refine ⟨before, e, after, rfl, ?_, missingStrategy?_eq_some hmissing⟩
    intro e' he'
    exact contains_of_missingStrategy?_eq_none (hbefore e' he')
  next => cases h

end FigureData.Extraction
