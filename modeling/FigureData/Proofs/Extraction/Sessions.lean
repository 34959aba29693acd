/-
  Sessions: an extractor takes records in and hands entities over, in any order of steps.

  A record that is refused leaves the extractor as it was, and handing over starts it anew,
  whether or not the entities were complete.  So at every moment of a session the extractor is
  one that has seen nothing and then ingested the records accepted since it last handed over.

  Proved:
  * `Extractor.ingestAll_step`: a step keeps the extractor a replay of the accepted records.
  * `Extractor.ingestAll_session`: so does a session.
  * `Extractor.ingestAll_strategies_eq_ok_iff`: which records are accepted strategy by strategy, and
    what a replay of them has collected.
  * `Extractor.isNumbered_of_ingestAll`: a replay has its entities numbered by their places.
  * `Extractor.finish_replays_accepted`: what is handed over in a session is what an extractor
    that has seen nothing hands over after the records accepted since the last time.
-/
import FigureData.Descriptor.Catalogue
import FigureData.Proofs.Extraction.Numbering
import FigureData.Proofs.Run.Intake

namespace FigureData.Extractor

open Extraction Outcome

/-! ## Steps and answers -/

/-- What an extractor may be asked for. -/
inductive Step where
  | ingest (record : Record)
  | finish

/-- What it answers. -/
inductive Answer where
  | accepted
  | refused (fault : Fault)
  | finished (outcome : Except Fault (List Entity))

/-- The extractor after a step, and its answer. -/
def step (x : Extractor) : Step → Extractor × Answer
  | .ingest r =>
    match x.ingest r with
    | .ok next => (next, .accepted)
    | .error fault => (x, .refused fault)
  | .finish => (x.finish.1, .finished x.finish.2)

/-- The answers to steps taken one after the other. -/
def answers (x : Extractor) : List Step → List Answer
  | [] => []
  | s :: rest => (x.step s).2 :: answers (x.step s).1 rest

/-- The extractor that steps leave behind. -/
def after (x : Extractor) (steps : List Step) : Extractor := steps.foldl (fun x s => (x.step s).1) x

/-- Records ingested one after the other. -/
def ingestAll (x : Extractor) (records : List Record) : Except Fault Extractor :=
  records.foldlM ingest x

/-- The records pending after a step: handing over leaves none, and a record that was accepted is
added. -/
def pendingAfter (pending : List Record) : Step × Answer → List Record
  | (.ingest r, .accepted) => pending ++ [r]
  | (.ingest _, _) => pending
  | (.finish, _) => []

/-- The records accepted since the last handing over of a log. -/
def acceptedSince (log : List (Step × Answer)) : List Record := log.foldl pendingAfter []

theorem length_answers (x : Extractor) (steps : List Step) :
    (x.answers steps).length = steps.length := by
  induction steps generalizing x with
  | nil => rfl
  | cons s rest ih => exact congrArg (· + 1) (ih (x.step s).1)

theorem answers_append (x : Extractor) (before rest : List Step) :
    x.answers (before ++ rest) = x.answers before ++ (x.after before).answers rest := by
  induction before generalizing x with
  | nil => rfl
  | cons s before ih => exact congrArg ((x.step s).2 :: ·) (ih (x.step s).1)

/-! ## Replays -/

variable {x y : Extractor} {records : List Record}

theorem ingestAll_concat (h : x.ingestAll records = .ok y) (r : Record) :
    x.ingestAll (records ++ [r]) = y.ingest r := by
  unfold ingestAll at *
  rw [List.foldlM_append, h]
  show (y.ingest r >>= fun z => pure z) = y.ingest r
  rw [bind_pure]

/-- What ingesting keeps, a replay keeps. -/
theorem ingestAll_induction {P : Extractor → Prop}
    (hstep : ∀ r x y, P x → x.ingest r = .ok y → P y) (hx : P x)
    (h : x.ingestAll records = .ok y) : P y := by
  induction records generalizing x with
  | nil =>
    cases h
    exact hx
  | cons r rest ih =>
    unfold ingestAll at *
    rw [List.foldlM_cons] at h
    obtain ⟨next, hnext, h⟩ := bind_eq_ok h
    exact ih (hstep r x next hx hnext) h

theorem fresh_of_ingestAll (h : x.ingestAll records = .ok y) : y.fresh = x.fresh :=
  ingestAll_induction (P := fun z => z.fresh = x.fresh)
    (fun _ _ _ hz hnext => (fresh_of_ingest hnext).trans hz) rfl h

/-- A replay has its entities numbered by their places. -/
theorem isNumbered_of_ingestAll (h : x.fresh.ingestAll records = .ok y) :
    Entity.IsNumbered y.entities :=
  ingestAll_induction (P := fun z => Entity.IsNumbered z.entities)
    (fun _ _ _ hz hnext => isNumbered_ingest hz hnext) (isNumbered_fresh x) h

theorem fresh_fresh (x : Extractor) : x.fresh.fresh = x.fresh := by
  cases x <;> rfl

theorem ingest_strategies_eq_ok_iff {rules : StrategyRules} {m : OrderedMap Entity} {r : Record} :
    (strategies rules m).ingest r = .ok y ↔ (∃ c, rules.read r = .ok c) ∧
      y = .strategies rules (enterAll (rules.contribution? (.ok r)).toList m) := by
  constructor
  · intro h
    obtain ⟨c, hc, rfl⟩ := map_eq_ok h
    rw [StrategyRules.contribution?_of_read hc]
    refine ⟨⟨c, hc⟩, ?_⟩
    cases c with
    | some c => rfl
    | none => rfl
  · rintro ⟨⟨c, hc⟩, rfl⟩
    rw [StrategyRules.contribution?_of_read hc]
    show (rules.read r).map _ = _
    rw [hc]
    cases c with
    | some c => rfl
    | none => rfl

/-- Records are accepted when they can be read; what has been collected are their contributions,
entered one after the other. -/
theorem ingestAll_strategies_eq_ok_iff {rules : StrategyRules} {m : OrderedMap Entity} :
    (strategies rules m).ingestAll records = .ok y ↔ (∀ r ∈ records, ∃ c, rules.read r = .ok c) ∧
      y = .strategies rules (enterAll (rules.contributions records) m) := by
  induction records generalizing m with
  | nil =>
    constructor
    · intro h
      cases h
      exact ⟨nofun, rfl⟩
    · rintro ⟨-, rfl⟩
      rfl
  | cons r rest ih =>
    have hcons : (strategies rules m).ingestAll (r :: rest) =
        (strategies rules m).ingest r >>= fun next => next.ingestAll rest := List.foldlM_cons ..
    have henter : enterAll (rules.contributions (r :: rest)) m = enterAll
        (rules.contributions rest) (enterAll (rules.contribution? (.ok r)).toList m) := by
      unfold StrategyRules.contributions
      rw [List.filterMap_cons]
      cases rules.contribution? (.ok r) with
      | none => rfl
      | some c => rfl
    rw [hcons, List.forall_mem_cons, henter]
    constructor
    · intro h
      obtain ⟨next, hnext, h⟩ := bind_eq_ok h
      obtain ⟨hr, rfl⟩ := ingest_strategies_eq_ok_iff.1 hnext
      obtain ⟨hrest, rfl⟩ := ih.1 h
      exact ⟨⟨hr, hrest⟩, rfl⟩
    · rintro ⟨⟨hr, hrest⟩, rfl⟩
      rw [ingest_strategies_eq_ok_iff.2 ⟨hr, rfl⟩]
      exact ih.2 ⟨hrest, rfl⟩

/-- A step keeps the extractor a replay of the accepted records. -/
theorem ingestAll_step (h : x.fresh.ingestAll records = .ok y) (s : Step) :
    x.fresh.ingestAll (pendingAfter records (s, (y.step s).2)) = .ok (y.step s).1 := by
  cases s with
  | ingest r =>
    cases hr : y.ingest r with
    | ok next =>
      have hstep : y.step (.ingest r) = (next, .accepted) := by simp only [step, hr]
      rw [hstep]
      exact (ingestAll_concat h r).trans hr
    | error fault =>
      have hstep : y.step (.ingest r) = (y, .refused fault) := by simp only [step, hr]
      rw [hstep]
      exact h
  | finish =>
    show Except.ok x.fresh = Except.ok y.fresh
    rw [fresh_of_ingestAll h, fresh_fresh]

/-- A session keeps the extractor a replay of the accepted records. -/
theorem ingestAll_session (h : x.fresh.ingestAll records = .ok y) (steps : List Step) :
    x.fresh.ingestAll ((steps.zip (y.answers steps)).foldl pendingAfter records) =
      .ok (y.after steps) := by
  induction steps generalizing y records with
  | nil => exact h
  | cons s rest ih => exact ih (ingestAll_step h s)

/-! ## Handing over -/

/-- Whatever was accepted, refused or handed over before, an extractor hands over what one that
has seen nothing hands over after the records accepted since the last time, and the entities are
numbered by their places. -/
theorem finish_replays_accepted (x : Extractor) (before rest : List Step) :
    let answers := x.fresh.answers (before ++ .finish :: rest)
    ∃ y, x.fresh.ingestAll (acceptedSince (before.zip answers)) = .ok y ∧
      answers[before.length]? = some (.finished y.finish.2) ∧
      ∀ entities, y.finish.2 = .ok entities →
        ∀ (i : ℕ) (hi : i < entities.length), entities[i].discovery = i := by
  intro answers
  have hanswers : answers = x.fresh.answers before ++
      .finished (x.fresh.after before).finish.2 ::
        ((x.fresh.after before).step .finish).1.answers rest := answers_append ..
  have hlog : before.zip answers = before.zip (x.fresh.answers before) := by
    have hlength := length_answers x.fresh before
    rw [hanswers]
    nth_rewrite 1 [← List.append_nil before]
    rw [List.zip_append hlength.symm, List.zip_nil_left, List.append_nil]
  have hreplay : x.fresh.ingestAll (acceptedSince (before.zip (x.fresh.answers before))) =
      .ok (x.fresh.after before) := ingestAll_session rfl before
  refine ⟨x.fresh.after before, ?_, ?_, ?_⟩
  · rw [hlog]
    exact hreplay
  · rw [hanswers, List.getElem?_append_right (Nat.le_of_eq (length_answers ..)), length_answers,
      Nat.sub_self]
    rfl
  · intro entities hentities i hi
    have hlist : entities = (x.fresh.after before).entities := eq_entities_of_collected hentities
    subst hlist
    exact (isNumbered_of_ingestAll hreplay).discovery_eq hi

/-- The states that were explored for a network, under the name that the kind of file has for
them. -/
def statesRecord (fileName key : String) : Record :=
  ⟨fileName, fileName, .document (.object [(key, .array [.object [("num_states", .int 1)]])])⟩

/-- A network that lacks files is handed over in vain; of the next network one file is refused and
comes again. -/
def interruptedSteps : List Step :=
  [.ingest (statesRecord "a.gml.rand.json" "random_result"), .finish,
    .ingest (statesRecord "b.gml.rand.json" "random_result"),
    .ingest (statesRecord "b.gml.strat.json" "random_result"),
    .ingest (statesRecord "b.gml.strat.json" "strategy_result"),
    .ingest (statesRecord "b.gml.optim.json" "strategy_result")]

theorem interruptedSteps_handOver :
    let x := (ofDescriptor .stateExploration).fresh
    let answers := x.answers (interruptedSteps ++ [.finish])
    let accepted := acceptedSince (interruptedSteps.zip answers)
    accepted.map Record.fileName = ["b.gml.rand.json", "b.gml.strat.json", "b.gml.optim.json"] ∧
      ∃ y entities, x.ingestAll accepted = .ok y ∧
        answers[6]? = some (.finished (.ok entities)) ∧ entities.map Entity.id = ["b"] ∧
        ∀ (i : ℕ) (hi : i < entities.length), entities[i].discovery = i := by
  intro x answers accepted
  have hnames : accepted.map Record.fileName =
      ["b.gml.rand.json", "b.gml.strat.json", "b.gml.optim.json"] := by
    decide +kernel
  have hids : ((x.ingestAll accepted).toOption.bind fun y => y.finish.2.toOption).any
      (fun entities => decide (entities.map Entity.id = ["b"])) = true := by
    decide +kernel
  obtain ⟨y, hy, hanswer, hnumbers⟩ :=
    finish_replays_accepted (ofDescriptor .stateExploration) interruptedSteps []
  rw [show x.ingestAll accepted = .ok y from hy] at hids
  obtain ⟨entities, hentities, hid⟩ := exists_of_any hids
  refine ⟨hnames, y, entities, hy, ?_, of_decide_eq_true hid, hnumbers entities hentities⟩
  rw [← hentities]
  exact hanswer

end FigureData.Extractor
