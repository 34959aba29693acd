/-
  The samples of the networks of a cost comparison.

  Proved:
  * `keys_of_takeIn`: every network has a sample of each strategy, in the order in which
    the strategies are declared.
  * `decisive?_cost`: the first degraded sample decides, whichever it is.
  * `decisive_aborts_iff`: it is the one of the strategy under test exactly when all
    baselines are complete.
-/
import FigureData.Proofs.Run.Stages

namespace FigureData

open Extraction Outcome

/-! ## Networks of a cost comparison -/

/-- The strategies of a cost comparison, in the order of their samples. -/
def costLabels : List String := ["random", "mif", "mil", "snowcap"]

/-- The baselines of a cost comparison, which may give up. -/
def baselineLabels : List String := ["random", "mif", "mil"]

theorem suffix_costComparison (number : UInt8) :
    ∀ s ∈ (Descriptor.costComparison number).strategies, s.fileSuffix = none := by
  intro s hs
  have hall : ((Descriptor.costComparison number).strategies.map Strategy.fileSuffix) =
      [none, none, none, none] := rfl
  have hmem := List.mem_map_of_mem (f := Strategy.fileSuffix) hs
  rw [hall] at hmem
  simpa using hmem

/-- Every network of a cost comparison has a sample of each strategy. -/
theorem keys_of_takeIn {number : UInt8} {ctx : Context} {t : FileTree} {intake : Intake}
    {entities : List Entity} (h : takeIn ctx (.costComparison number) t = .ok (intake, entities)) :
    ∀ e ∈ entities, e.samples.keys = costLabels := by
  exact keys_of_shared (.ofDescriptor (.costComparison number)) rfl
    (suffix_costComparison number) (show costLabels.Nodup by decide) h

/-- The entries of a network of a cost comparison. -/
theorem entries_of_keys {e : Entity} (h : e.samples.keys = costLabels) :
    ∃ random mif mil snowcap, e.samples.entries =
      [("random", random), ("mif", mif), ("mil", mil), ("snowcap", snowcap)] := by
  unfold OrderedMap.keys at h
  generalize e.samples.entries = entries at *
  obtain _ | ⟨⟨l1, s1⟩, _ | ⟨⟨l2, s2⟩, _ | ⟨⟨l3, s3⟩, _ | ⟨⟨l4, s4⟩, _ | ⟨x, rest⟩⟩⟩⟩⟩ :=
    entries <;> simp [costLabels] at h
  obtain ⟨rfl, rfl, rfl, rfl⟩ := h
  exact ⟨s1, s2, s3, s4, rfl⟩

/-! ## What decides -/

/-- Is the sample of a strategy there and complete? -/
def Entity.hasComplete (e : Entity) (label : String) : Bool :=
  (e.samples.find? label).any Sample.isComplete

/-- Is the sample of a strategy there and degraded? -/
def Entity.hasDegraded (e : Entity) (label : String) : Bool :=
  (e.samples.find? label).any Sample.isDegraded

theorem missingPolicy_baseline (number : UInt8) {label : String} (h : label ∈ baselineLabels) :
    (Descriptor.costComparison number).missingPolicy label = .dropEntity := by
  simp only [baselineLabels, List.mem_cons, List.not_mem_nil, or_false] at h
  rcases h with rfl | rfl | rfl <;> rfl

theorem missingPolicy_snowcap (number : UInt8) :
    (Descriptor.costComparison number).missingPolicy "snowcap" = .abort := rfl

/-- No policy of a cost comparison leaves a strategy undefined, so every degraded sample
decides. -/
theorem decides_cost (number : UInt8) {label : String} (h : label ∈ costLabels) (s : Sample) :
    (Descriptor.costComparison number).decides (label, s) = s.isDegraded := by
  have hpolicy : (Descriptor.costComparison number).missingPolicy label ≠ .undefined := by
    by_cases hsnowcap : label = "snowcap"
    · rw [hsnowcap, missingPolicy_snowcap]
      decide
    · rw [missingPolicy_baseline number (by simpa [costLabels, baselineLabels, hsnowcap] using h)]
      decide
  unfold Descriptor.decides
  rw [decide_eq_true hpolicy, Bool.and_true]

section Decisive

variable {e : Entity} {random mif mil snowcap : Sample}

theorem find?_of_entries (h : e.samples.entries =
    [("random", random), ("mif", mif), ("mil", mil), ("snowcap", snowcap)]) :
    e.samples.find? "random" = some random ∧ e.samples.find? "mif" = some mif ∧
      e.samples.find? "mil" = some mil ∧ e.samples.find? "snowcap" = some snowcap := by
  unfold OrderedMap.find?
  rw [h]
  exact ⟨rfl, rfl, rfl, rfl⟩

theorem hasDegraded_iff {label : String} {s : Sample} (h : e.samples.find? label = some s) :
    e.hasDegraded label = true ↔ s.isDegraded = true := by
  unfold Entity.hasDegraded
  rw [h, Option.any_some]

theorem hasComplete_iff {label : String} {s : Sample} (h : e.samples.find? label = some s) :
    e.hasComplete label = true ↔ s.isDegraded = false := by
  unfold Entity.hasComplete Sample.isDegraded
  rw [h, Option.any_some, Bool.not_eq_false']

/-- The first degraded sample decides, whichever it is. -/
theorem decisive?_cost (number : UInt8) (h : e.samples.entries =
    [("random", random), ("mif", mif), ("mil", mil), ("snowcap", snowcap)]) :
    e.decisive? (.costComparison number) =
      if random.isDegraded then some ("random", random)
      else if mif.isDegraded then some ("mif", mif)
      else if mil.isDegraded then some ("mil", mil)
      else if snowcap.isDegraded then some ("snowcap", snowcap)
      else none := by
  unfold Entity.decisive?
  rw [h]
  simp only [List.find?_cons, List.find?_nil,
    decides_cost number (by decide : "random" ∈ costLabels),
    decides_cost number (by decide : "mif" ∈ costLabels),
    decides_cost number (by decide : "mil" ∈ costLabels),
    decides_cost number (by decide : "snowcap" ∈ costLabels)]
  cases random.isDegraded <;> cases mif.isDegraded <;> cases mil.isDegraded <;>
    cases snowcap.isDegraded <;> rfl

end Decisive

/-- The deciding sample is that of the strategy under test exactly when it is degraded and
all baselines are complete. -/
theorem decisive_aborts_iff (number : UInt8) {e : Entity} (h : e.samples.keys = costLabels) :
    (∃ x, e.decisive? (.costComparison number) = some x ∧
      (Descriptor.costComparison number).missingPolicy x.1 = .abort) ↔
    e.hasDegraded "snowcap" = true ∧ ∀ label ∈ baselineLabels, e.hasComplete label = true := by
  obtain ⟨random, mif, mil, snowcap, hentries⟩ := entries_of_keys h
  obtain ⟨hrandom, hmif, hmil, hsnowcap⟩ := find?_of_entries hentries
  have hbaselines : (∀ label ∈ baselineLabels, e.hasComplete label = true) ↔
      random.isDegraded = false ∧ mif.isDegraded = false ∧ mil.isDegraded = false := by
    unfold baselineLabels
    rw [List.forall_mem_cons, List.forall_mem_cons, List.forall_mem_singleton,
      hasComplete_iff hrandom, hasComplete_iff hmif, hasComplete_iff hmil]
  rw [hasDegraded_iff hsnowcap, hbaselines, decisive?_cost number hentries]
  -- A baseline that decides drops the network.
  have hdrop : ∀ label ∈ baselineLabels, ∀ s : Sample, ¬ ∃ x, some (label, s) = some x ∧
      (Descriptor.costComparison number).missingPolicy x.1 = .abort := by
    rintro label hl s ⟨x, hx, hp⟩
    rw [← Option.some.inj hx, missingPolicy_baseline number hl] at hp
    cases hp
  split_ifs with h1 h2 h3 h4
  · exact iff_of_false (hdrop "random" (by decide) random) (by simp [h1])
  · exact iff_of_false (hdrop "mif" (by decide) mif) (by simp [h2])
  · exact iff_of_false (hdrop "mil" (by decide) mil) (by simp [h3])
  · exact iff_of_true ⟨_, rfl, rfl⟩
      ⟨h4, Bool.eq_false_iff.2 h1, Bool.eq_false_iff.2 h2, Bool.eq_false_iff.2 h3⟩
  · refine iff_of_false ?_ fun hc => h4 hc.1
    rintro ⟨x, hx, -⟩
    cases hx

/-- Nothing decides exactly when all samples are complete. -/
theorem decisive?_eq_none_iff (number : UInt8) {e : Entity} (h : e.samples.keys = costLabels) :
    e.decisive? (.costComparison number) = none ↔
      ∀ label ∈ costLabels, e.hasComplete label = true := by
  obtain ⟨random, mif, mil, snowcap, hentries⟩ := entries_of_keys h
  obtain ⟨hrandom, hmif, hmil, hsnowcap⟩ := find?_of_entries hentries
  unfold costLabels
  rw [List.forall_mem_cons, List.forall_mem_cons, List.forall_mem_cons, List.forall_mem_singleton,
    hasComplete_iff hrandom, hasComplete_iff hmif, hasComplete_iff hmil, hasComplete_iff hsnowcap,
    decisive?_cost number hentries]
  split_ifs with h1 h2 h3 h4 <;> simp_all

/-- The results of one network with one measurement for each strategy. -/
def costText (random mif mil snowcap : String) : String :=
  "\x7b\"random_result\":[\x7b\"cost\":" ++ random ++
    "\x7d],\"baseline_mif_result\":[\x7b\"cost\":" ++ mif ++
    "\x7d],\"baseline_mil_result\":[\x7b\"cost\":" ++ mil ++
    "\x7d],\"strategy_result\":[\x7b\"cost\":" ++ snowcap ++ "\x7d],\"ideal_cost\":1\x7d"

end FigureData
