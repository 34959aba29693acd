/-
  Strategies that must always converge.

  A degraded sample of such a strategy stops the run, unless an earlier degraded sample
  has dropped the entity first: the samples are settled in order, and the first one that
  decides is the last one looked at.  The cost comparisons list the strategy that must
  converge after the baselines that may give up.

  Proved:
  * `stops_iff_abort_decides`: an entity with a degraded sample of a strategy that must
    converge is never kept, and stops the run exactly when no earlier sample drops it; a
    cost comparison stops exactly when some network has a degraded sample of the strategy
    under test while all its baselines are complete.
  * `dropped_despite_abort`: a network that is dropped although that sample is degraded.
-/
import FigureData.Proofs.Run.CostSamples

namespace FigureData

open Outcome

/-- The runs of a cost comparison whose files can be taken in. -/
theorem collect_stops_iff {ctx : Context} {number : UInt8} {t : FileTree} {intake : Intake}
    {entities : List Entity} (h : takeIn ctx (.costComparison number) t = .ok (intake, entities)) :
    (∃ fault, collect ctx (.costComparison number) t = .error fault ∧
      fault.family = .undefinedResult) ↔
    ∃ e ∈ entities, e.hasDegraded "snowcap" = true ∧
      ∀ label ∈ baselineLabels, e.hasComplete label = true := by
  have hkeys := keys_of_takeIn h
  have hcollect : collect ctx (.costComparison number) t =
      evaluate ctx (.costComparison number) intake entities := by
    rw [collect_eq, h]
    rfl
  have hok : (∃ c, evaluate ctx (.costComparison number) intake entities = .ok c) ↔
      ∀ e ∈ entities, ∃ outcome,
        e.summarize (.costComparison number) ctx.ratioSentinel = .ok outcome :=
    evaluate_eq_ok_iff intake entities
  -- A network stops the run when the sample that decides is that of the strategy under test.
  have hstops : ∀ e ∈ entities,
      (∃ fault, e.summarize (.costComparison number) ctx.ratioSentinel = .error fault) ↔
        e.hasDegraded "snowcap" = true ∧
      ∀ label ∈ baselineLabels, e.hasComplete label = true := by
    intro e he
    rw [Entity.summarize_error_iff, decisive_aborts_iff number (hkeys e he)]
  rw [hcollect]
  constructor
  · rintro ⟨fault, hfault, -⟩
    by_contra hnone
    have hall : ∀ e ∈ entities, ∃ outcome,
        e.summarize (.costComparison number) ctx.ratioSentinel = .ok outcome := by
      intro e he
      cases hout : e.summarize (.costComparison number) ctx.ratioSentinel with
      | ok outcome => exact ⟨outcome, rfl⟩
      | error reason => exact absurd ⟨e, he, (hstops e he).1 ⟨reason, hout⟩⟩ hnone
    obtain ⟨c, hc⟩ := hok.2 hall
    rw [hfault] at hc
    cases hc
  · rintro ⟨e, he, hdegraded⟩
    obtain ⟨reason, hreason⟩ := (hstops e he).2 hdegraded
    cases hout : evaluate ctx (.costComparison number) intake entities with
    | error fault => exact ⟨fault, rfl, family_of_evaluate hout⟩
    | ok c =>
      obtain ⟨outcome, houtcome⟩ := hok.1 ⟨c, hout⟩ e he
      rw [hreason] at houtcome
      cases houtcome

/-- A degraded sample of a strategy that must converge never leaves its entity in the
dataset, and it stops the run exactly when a sample of such a strategy is the first that
decides.  For the cost comparisons this means that all baselines are complete. -/
theorem stops_iff_abort_decides (d : Descriptor) (sentinel : Float) (e : Entity) (ctx : Context)
    (number : UInt8) (t : FileTree) :
    (∀ x ∈ e.samples.entries, x.2.isDegraded = true → d.missingPolicy x.1 = .abort →
      (∀ summary, e.summarize d sentinel ≠ .ok (.kept summary)) ∧
      ((∃ fault, e.summarize d sentinel = .error fault ∧ fault.family = .undefinedResult) ↔
        ∃ y, e.decisive? d = some y ∧ d.missingPolicy y.1 = .abort)) ∧
    (∀ intake entities, takeIn ctx (.costComparison number) t = .ok (intake, entities) →
      ((∃ fault, collect ctx (.costComparison number) t = .error fault ∧
        fault.family = .undefinedResult) ↔
      ∃ network ∈ entities, network.hasDegraded "snowcap" = true ∧
        ∀ label ∈ baselineLabels, network.hasComplete label = true)) := by
  constructor
  · intro x hx hdegraded habort
    have hdecides : d.decides x = true :=
      Descriptor.decides_iff.2 ⟨hdegraded, by rw [habort]; decide⟩
    constructor
    · intro summary hkept
      have hnone := (Entity.summarize_kept_iff sentinel).1 ⟨summary, hkept⟩
      exact List.find?_eq_none.1 hnone x hx hdecides
    · rw [← Entity.summarize_error_iff sentinel]
      constructor
      · rintro ⟨fault, hfault, -⟩
        exact ⟨fault, hfault⟩
      · rintro ⟨fault, hfault⟩
        exact ⟨fault, hfault, Entity.family_of_summarize hfault⟩
  · intro intake entities h
    exact collect_stops_iff h

/-! ## Both ways a degraded sample can end -/

/-- The strategy under test and the random baseline both failed on one network. -/
def bothDegraded : Entity where
  id := "Abilene"
  samples := .ofList [("random", ⟨[Binary64.missing, 3.0]⟩), ("mif", ⟨[4.0]⟩), ("mil", ⟨[4.0]⟩),
    ("snowcap", ⟨[1.0, Binary64.missing]⟩)]

/-- The network is dropped, although a strategy that must converge has a degraded sample. -/
theorem dropped_despite_abort :
    (∃ x ∈ bothDegraded.samples.entries, x.2.isDegraded = true ∧
      (Descriptor.costComparison 6).missingPolicy x.1 = .abort) ∧
    ∃ reason, bothDegraded.summarize (.costComparison 6) defaultSentinel =
      .ok (.dropped "Abilene" reason) :=
  ⟨⟨("snowcap", ⟨[1.0, Binary64.missing]⟩), by decide +kernel⟩, ⟨_, rfl⟩⟩

/-- Results of one network on which only the strategy under test failed. -/
def failedRun : FileTree :=
  resultTree (.costComparison 6) [("A.json", .ofText (costText "3" "4" "4" "null"))]

theorem failedRun_stops :
    (∀ summary, bothDegraded.summarize (.costComparison 6) defaultSentinel ≠ .ok (.kept summary)) ∧
    ∃ fault, collect freshContext (.costComparison 6) failedRun = .error fault ∧
      fault.family = .undefinedResult := by
  have hrun : (takeIn freshContext (.costComparison 6) failedRun).toOption.any
      (fun x => x.2.any fun e => e.hasDegraded "snowcap" && baselineLabels.all e.hasComplete) =
        true := by
    decide +kernel
  have hdegraded : ("snowcap", ⟨[1.0, Binary64.missing]⟩) ∈ bothDegraded.samples.entries := by
    decide +kernel
  obtain ⟨hentity, hruns⟩ := stops_iff_abort_decides (.costComparison 6) defaultSentinel
    bothDegraded freshContext 6 failedRun
  refine ⟨(hentity _ hdegraded (by decide +kernel) rfl).1, ?_⟩
  obtain ⟨⟨intake, entities⟩, htake, hany⟩ := exists_of_any hrun
  obtain ⟨e, he, hfailed⟩ := List.any_eq_true.1 hany
  rw [Bool.and_eq_true, List.all_eq_true] at hfailed
  exact (hruns intake entities htake).2 ⟨e, he, hfailed⟩

end FigureData
