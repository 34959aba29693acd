/-
  What becomes of an entity with degraded samples.

  The samples are settled in order.  A complete sample always has a summary, so the first
  degraded sample whose policy does not leave the strategy undefined decides: it is the
  one that stops the run or drops the entity, and the samples after it are not looked at.

  Proved:
  * `resolveSample_of_complete`: a complete sample is summarised under every policy.
  * `resolveSamples_ok`, `resolveSamples_error`: all samples have a summary, or the first
    that has none decides.
  * `Entity.summarize_error_iff`, `Entity.family_of_summarize`: a run is stopped exactly
    when the deciding sample must always converge, with a fault that says so.
  * `Entity.summarize_kept_iff`: an entity is kept exactly when no sample decides, and
    `Entity.summarize_eq_kept` tells when it is not left out.
  * `find?_resolveSamples`, `keys_resolveSamples`: what is left under each label, and in which
    order.
  * `Entity.summarize_kept_spec`: a kept entity has under each label the summary of its own
    sample, and `Entity.summary_of_kept` tells which that is.
-/
import FigureData.Entity.Summarize
import FigureData.Proofs.Maps
import FigureData.Proofs.Statistics.Percentile

namespace FigureData

/-! ## One sample -/

/-- A sample that is empty or holds a missing marker. -/
def Sample.isDegraded (s : Sample) : Bool := !s.isComplete

/-- Does the sample of a strategy end the resolution? -/
def Descriptor.decides (d : Descriptor) (x : String × Sample) : Bool :=
  x.2.isDegraded && decide (d.missingPolicy x.1 ≠ .undefined)

theorem Descriptor.decides_iff {d : Descriptor} {x : String × Sample} :
    d.decides x = true ↔ x.2.isDegraded = true ∧ d.missingPolicy x.1 ≠ .undefined := by
  unfold Descriptor.decides
  rw [Bool.and_eq_true, decide_eq_true_eq]

/-- A complete sample is summarised under every policy. -/
theorem resolveSample_of_complete (label : String) {s : Sample} (hs : s.isComplete = true)
    (policy : MissingPolicy) :
    ∃ m, resolveSample label s policy = .ok m ∧
      percentile? (Binary64.sort s.values) 0.5 = some m.median := by
  obtain ⟨m, hm, hmedian⟩ := Sample.summarize_ok hs
  refine ⟨m, ?_, hmedian⟩
  unfold resolveSample
  rw [if_pos hs, hm]

theorem resolveSample_of_degraded (label : String) {s : Sample} (hs : s.isDegraded = true) :
    resolveSample label s .undefined = .ok .undefined ∧
      resolveSample label s .abort = .error (.noSolutionAborts label) ∧
      ∃ fault, resolveSample label s .dropEntity = .error fault := by
  have hcomplete : ¬ s.isComplete = true := by
    unfold Sample.isDegraded at hs
    rw [Bool.not_eq_true'] at hs
    rw [hs]
    exact Bool.false_ne_true
  unfold resolveSample
  refine ⟨if_neg hcomplete, if_neg hcomplete, ?_⟩
  simp only [if_neg hcomplete]
  split
  · exact ⟨_, rfl⟩
  · exact ⟨_, rfl⟩

/-- A sample that does not decide has a summary. -/
theorem resolveSample_ok {d : Descriptor} {x : String × Sample} (h : d.decides x = false) :
    ∃ m, resolveSample x.1 x.2 (d.missingPolicy x.1) = .ok m := by
  by_cases hs : x.2.isComplete = true
  · obtain ⟨m, hm, -⟩ := resolveSample_of_complete x.1 hs (d.missingPolicy x.1)
    exact ⟨m, hm⟩
  · have hdegraded : x.2.isDegraded = true := by
      unfold Sample.isDegraded
      rw [Bool.not_eq_true', Bool.eq_false_iff]
      exact hs
    have hpolicy : d.missingPolicy x.1 = .undefined := by
      by_contra hne
      rw [Descriptor.decides_iff.2 ⟨hdegraded, hne⟩] at h
      exact absurd h (by decide)
    rw [hpolicy]
    exact ⟨_, (resolveSample_of_degraded x.1 hdegraded).1⟩

/-- A sample that decides has none, and the fault tells whether the run stops. -/
theorem resolveSample_error {d : Descriptor} {x : String × Sample} (h : d.decides x = true) :
    ∃ fault, resolveSample x.1 x.2 (d.missingPolicy x.1) = .error fault ∧
      (d.missingPolicy x.1 = .abort → fault.family = .undefinedResult) := by
  obtain ⟨hdegraded, hpolicy⟩ := Descriptor.decides_iff.1 h
  obtain ⟨-, habort, fault, hdrop⟩ := resolveSample_of_degraded x.1 hdegraded
  cases hp : d.missingPolicy x.1 with
  | undefined => exact absurd hp hpolicy
  | abort => exact ⟨_, habort, fun _ => rfl⟩
  | dropEntity => exact ⟨fault, hdrop, fun h => absurd h (by decide)⟩

/-! ## All samples -/

/-- Summaries of samples none of which decides. -/
theorem resolveSamples_ok {d : Descriptor} (id : String) {samples : List (String × Sample)}
    (h : ∀ x ∈ samples, d.decides x = false) (acc : Resolved) :
    ∃ r, resolveSamples d id acc samples = .ok r := by
  induction samples generalizing acc with
  | nil => exact ⟨acc, rfl⟩
  | cons x rest ih =>
    obtain ⟨m, hm⟩ := resolveSample_ok (h x (List.mem_cons_self ..))
    unfold resolveSamples
    simp only [hm]
    exact ih (fun y hy => h y (List.mem_cons_of_mem _ hy)) _

/-- The first sample that decides ends the resolution. -/
theorem resolveSamples_error {d : Descriptor} (id : String) {before : List (String × Sample)}
    (after : List (String × Sample)) {x : String × Sample}
    (hbefore : ∀ y ∈ before, d.decides y = false) (hx : d.decides x = true) (acc : Resolved) :
    ∃ u, resolveSamples d id acc (before ++ x :: after) = .error u ∧
      (u.stopsRun = true ↔ d.missingPolicy x.1 = .abort) ∧
      (u.stopsRun = true → u.reason.family = .undefinedResult) := by
  induction before generalizing acc with
  | nil =>
    obtain ⟨fault, hfault, hfamily⟩ := resolveSample_error hx
    refine ⟨_, by rw [List.nil_append, resolveSamples, hfault], ?_, ?_⟩
    · rw [decide_eq_true_eq]
      exact ⟨And.right, fun h => ⟨hfamily h, h⟩⟩
    · rw [decide_eq_true_eq]
      exact And.left
  | cons y rest ih =>
    obtain ⟨m, hm⟩ := resolveSample_ok (hbefore y (List.mem_cons_self ..))
    rw [List.cons_append]
    unfold resolveSamples
    simp only [hm]
    exact ih (fun z hz => hbefore z (List.mem_cons_of_mem _ hz)) _

/-- Summaries and means under other labels stay as they are. -/
theorem find?_resolveSamples_of_not_mem {d : Descriptor} {id : String} {acc r : Resolved}
    {samples : List (String × Sample)} (h : resolveSamples d id acc samples = .ok r)
    {label : String} (hlabel : label ∉ samples.map Prod.fst) :
    r.summaries.find? label = acc.summaries.find? label ∧
      r.means.find? label = acc.means.find? label := by
  induction samples generalizing acc with
  | nil =>
    cases h
    exact ⟨rfl, rfl⟩
  | cons x rest ih =>
    rw [List.map_cons, List.mem_cons, not_or] at hlabel
    unfold resolveSamples at h
    simp only at h
    split at h
    next m hm =>
      have hrest := ih h hlabel.2
      rwa [OrderedMap.find?_insert, if_neg hlabel.1, OrderedMap.find?_insert,
        if_neg hlabel.1] at hrest
    next => cases h

/-- Under each label stand the summary of its own sample and the mean that goes with it. -/
theorem find?_resolveSamples {d : Descriptor} {id : String} {acc r : Resolved}
    {samples : List (String × Sample)} (hnodup : (samples.map Prod.fst).Nodup)
    (h : resolveSamples d id acc samples = .ok r) :
    ∀ x ∈ samples, ∃ m, r.summaries.find? x.1 = some m ∧
      r.means.find? x.1 = some (meanFor x.2 m) ∧
      resolveSample x.1 x.2 (d.missingPolicy x.1) = .ok m := by
  induction samples generalizing acc with
  | nil => simp
  | cons x rest ih =>
    rw [List.map_cons, List.nodup_cons] at hnodup
    unfold resolveSamples at h
    simp only at h
    split at h
    next m hm =>
      rw [List.forall_mem_cons]
      have hfirst := find?_resolveSamples_of_not_mem h hnodup.1
      rw [OrderedMap.find?_insert, if_pos rfl, OrderedMap.find?_insert, if_pos rfl] at hfirst
      exact ⟨⟨m, hfirst.1, hfirst.2, hm⟩, ih hnodup.2 h⟩
    next => cases h

/-- Labels come in the order of the samples, the same ones for summaries and means. -/
theorem keys_resolveSamples {d : Descriptor} {id : String} {acc r : Resolved}
    {samples : List (String × Sample)} (hsame : acc.means.keys = acc.summaries.keys)
    (hnodup : (acc.summaries.keys ++ samples.map Prod.fst).Nodup)
    (h : resolveSamples d id acc samples = .ok r) :
    r.summaries.keys = acc.summaries.keys ++ samples.map Prod.fst ∧
      r.means.keys = r.summaries.keys := by
  induction samples generalizing acc with
  | nil =>
    cases h
    rw [List.map_nil, List.append_nil]
    exact ⟨rfl, hsame⟩
  | cons x rest ih =>
    rw [List.map_cons] at hnodup ⊢
    have hnew : x.1 ∉ acc.summaries.keys := by
      intro hmem
      exact (List.nodup_append.1 hnodup).2.2 _ hmem _ (List.mem_cons_self ..) rfl
    unfold resolveSamples at h
    simp only at h
    split at h
    next m hm =>
      have hkeys : (acc.summaries.insert x.1 m).keys = acc.summaries.keys ++ [x.1] := by
        rw [OrderedMap.keys_insert, if_neg hnew]
      have hmeans : (acc.means.insert x.1 (meanFor x.2 m)).keys =
          (acc.summaries.insert x.1 m).keys := by
        rw [OrderedMap.keys_insert, OrderedMap.keys_insert, hsame]
      have hrest := ih hmeans (by rw [hkeys, List.append_assoc]; exact hnodup) h
      rwa [hkeys, List.append_assoc] at hrest
    next => cases h

/-! ## Entities -/

/-- The first sample that decides what becomes of an entity. -/
def Entity.decisive? (e : Entity) (d : Descriptor) : Option (String × Sample) :=
  e.samples.entries.find? d.decides

section Summarize

variable {d : Descriptor} {e : Entity}

theorem Entity.summarize_of_none (sentinel : Float) (h : e.decisive? d = none) :
    ∃ summary, e.summarize d sentinel = .ok (.kept summary) := by
  have hnone : ∀ x ∈ e.samples.entries, d.decides x = false := by
    intro x hx
    exact Bool.eq_false_iff.2 (List.find?_eq_none.1 h x hx)
  obtain ⟨r, hr⟩ := resolveSamples_ok e.id hnone {}
  unfold Entity.summarize
  rw [hr]
  exact ⟨_, rfl⟩

theorem Entity.summarize_of_some (sentinel : Float) {x : String × Sample}
    (h : e.decisive? d = some x) :
    (d.missingPolicy x.1 = .abort →
      ∃ fault, e.summarize d sentinel = .error fault ∧ fault.family = .undefinedResult) ∧
    (d.missingPolicy x.1 ≠ .abort →
      ∃ reason, e.summarize d sentinel = .ok (.dropped e.id reason)) := by
  obtain ⟨hx, before, after, hsplit, hbefore⟩ := List.find?_eq_some_iff_append.1 h
  obtain ⟨u, hu, hstops, hfamily⟩ := resolveSamples_error e.id after
    (fun y hy => by simpa using hbefore y hy) hx {}
  unfold Entity.summarize
  rw [hsplit, hu]
  constructor
  · intro hp
    have hs := hstops.2 hp
    exact ⟨u.reason, if_pos hs, hfamily hs⟩
  · intro hp
    have hs : ¬ u.stopsRun = true := fun hs => hp (hstops.1 hs)
    exact ⟨u.reason, if_neg hs⟩

/-- A fault that stops a run is about a strategy without a result, and it is raised exactly
when the deciding sample must always converge. -/
theorem Entity.summarize_error_iff (sentinel : Float) :
    (∃ fault, e.summarize d sentinel = .error fault) ↔
      ∃ x, e.decisive? d = some x ∧ d.missingPolicy x.1 = .abort := by
  constructor
  · rintro ⟨fault, hfault⟩
    cases hx : e.decisive? d with
    | none =>
      obtain ⟨summary, hkept⟩ := Entity.summarize_of_none sentinel hx
      rw [hkept] at hfault
      cases hfault
    | some x =>
      refine ⟨x, rfl, ?_⟩
      by_contra hp
      obtain ⟨reason, hdropped⟩ := (Entity.summarize_of_some sentinel hx).2 hp
      rw [hdropped] at hfault
      cases hfault
  · rintro ⟨x, hx, hp⟩
    obtain ⟨fault, hfault, -⟩ := (Entity.summarize_of_some sentinel hx).1 hp
    exact ⟨fault, hfault⟩

theorem Entity.family_of_summarize {sentinel : Float} {fault : Fault}
    (h : e.summarize d sentinel = .error fault) : fault.family = .undefinedResult := by
  obtain ⟨x, hx, hp⟩ := (Entity.summarize_error_iff sentinel).1 ⟨fault, h⟩
  obtain ⟨fault', hfault', hfamily⟩ := (Entity.summarize_of_some sentinel hx).1 hp
  rw [h] at hfault'
  rw [Except.error.inj hfault']
  exact hfamily

/-- An entity is kept exactly when no sample decides. -/
theorem Entity.summarize_kept_iff (sentinel : Float) :
    (∃ summary, e.summarize d sentinel = .ok (.kept summary)) ↔ e.decisive? d = none := by
  refine ⟨?_, Entity.summarize_of_none sentinel⟩
  rintro ⟨summary, hkept⟩
  by_contra hsome
  obtain ⟨x, hx⟩ := Option.ne_none_iff_exists'.1 hsome
  by_cases hp : d.missingPolicy x.1 = .abort
  · obtain ⟨fault, hfault, -⟩ := (Entity.summarize_of_some sentinel hx).1 hp
    rw [hkept] at hfault
    cases hfault
  · obtain ⟨reason, hdropped⟩ := (Entity.summarize_of_some sentinel hx).2 hp
    rw [hkept] at hdropped
    cases hdropped

/-- Without a strategy that must always converge no entity stops a run. -/
theorem Entity.summarize_ok_of_ne_abort (hs : ∀ s ∈ d.strategies, s.missing ≠ .abort)
    (hd : d.defaultMissing ≠ .abort) (sentinel : Float) :
    ∃ outcome, e.summarize d sentinel = .ok outcome := by
  cases hout : e.summarize d sentinel with
  | ok outcome => exact ⟨outcome, rfl⟩
  | error fault =>
    obtain ⟨x, -, hpolicy⟩ := (Entity.summarize_error_iff sentinel).1 ⟨fault, hout⟩
    unfold Descriptor.missingPolicy at hpolicy
    split at hpolicy
    next s hfind => exact absurd hpolicy (hs s (List.mem_of_find?_eq_some hfind))
    next => exact absurd hpolicy hd

/-- Without a strategy whose policy is to leave the entity out, it is not left out. -/
theorem Entity.summarize_eq_kept {sentinel : Float} {outcome : EntityOutcome}
    (h : e.summarize d sentinel = .ok outcome)
    (hpolicies : ∀ x ∈ e.samples.entries, d.missingPolicy x.1 ≠ .dropEntity) :
    ∃ summary, outcome = .kept summary := by
  cases hx : e.decisive? d with
  | none =>
    obtain ⟨summary, hkept⟩ := Entity.summarize_of_none sentinel hx
    rw [h] at hkept
    exact ⟨summary, Except.ok.inj hkept⟩
  | some x =>
    have hpolicy : d.missingPolicy x.1 = .abort := by
      have hdecides := Descriptor.decides_iff.1 (List.find?_some hx)
      cases hp : d.missingPolicy x.1 with
      | abort => rfl
      | dropEntity => exact absurd hp (hpolicies x (List.mem_of_find?_eq_some hx))
      | undefined => exact absurd hp hdecides.2
    obtain ⟨fault, hfault, -⟩ := (Entity.summarize_of_some sentinel hx).1 hpolicy
    rw [h] at hfault
    cases hfault

/-- What a kept entity is made of. -/
theorem Entity.resolved_of_kept {sentinel : Float} {summary : EntitySummary}
    (h : e.summarize d sentinel = .ok (.kept summary)) :
    ∃ r, resolveSamples d e.id {} e.samples.entries = .ok r ∧
      summary = {
        id := e.id
        discovery := e.discovery
        ideal := e.ideal
        summaries := r.summaries
        means := r.means
        scalars := e.scalars
        comparisons := compareAll d.comparisons r.summaries e.ideal sentinel } := by
  unfold Entity.summarize at h
  split at h
  next r hr =>
    cases h
    exact ⟨r, hr, rfl⟩
  next =>
    split at h
    · cases h
    · cases h

/-- What a kept entity brings along: the summaries of its samples, and the comparisons that
the descriptor makes of them. -/
theorem Entity.summarize_kept_spec {sentinel : Float} {summary : EntitySummary}
    (h : e.summarize d sentinel = .ok (.kept summary)) :
    (∀ x ∈ e.samples.entries, ∃ m, summary.summaries.find? x.1 = some m ∧
      resolveSample x.1 x.2 (d.missingPolicy x.1) = .ok m) ∧
    summary.comparisons = compareAll d.comparisons summary.summaries e.ideal sentinel := by
  obtain ⟨r, hr, rfl⟩ := Entity.resolved_of_kept h
  refine ⟨?_, rfl⟩
  intro x hx
  obtain ⟨m, hfind, -, hm⟩ := find?_resolveSamples e.samples.nodup hr x hx
  exact ⟨m, hfind, hm⟩

/-- The rest of a kept entity is as it was. -/
theorem Entity.summarize_kept_fields {sentinel : Float} {summary : EntitySummary}
    (h : e.summarize d sentinel = .ok (.kept summary)) :
    summary.id = e.id ∧ summary.ideal = e.ideal ∧ summary.scalars = e.scalars := by
  obtain ⟨r, -, rfl⟩ := Entity.resolved_of_kept h
  exact ⟨rfl, rfl, rfl⟩

/-- The summary that a kept entity has under a label: that of the sample where it is complete,
else an undefined one, which the policy has allowed. -/
theorem Entity.summary_of_kept {sentinel : Float} {summary : EntitySummary}
    (h : e.summarize d sentinel = .ok (.kept summary)) {x : String × Sample}
    (hx : x ∈ e.samples.entries) :
    ∃ m, summary.summaries.find? x.1 = some m ∧
      if x.2.isComplete then x.2.summarize = .ok m
      else d.missingPolicy x.1 = .undefined ∧ m = .undefined := by
  obtain ⟨m, hfind, hm⟩ := (Entity.summarize_kept_spec h).1 x hx
  refine ⟨m, hfind, ?_⟩
  unfold resolveSample at hm
  split at hm
  next hcomplete => rwa [if_pos hcomplete]
  next hdegraded =>
    rw [if_neg hdegraded]
    split at hm
    next hpolicy =>
      cases hm
      exact ⟨hpolicy, rfl⟩
    next => cases hm
    next =>
      split at hm
      · cases hm
      · cases hm

end Summarize

end FigureData
