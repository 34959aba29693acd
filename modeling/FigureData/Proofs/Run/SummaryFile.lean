/-
  The summary that a run leaves, read back.

  The text of a summary has a form for everything in it but numbers that are not finite, for which
  null is written, and null is no number when the summary is read.  Of the numbers of a run only
  the largest ratio can be an infinity.

  Proved:
  * `isTame_of_collect`: the columns that an evaluation takes scalars of hold finite numbers.
  * `isWritable_iff`: so the summary of a run has a form of its own exactly when its counts are
    words and its largest ratio is finite.
  * `readAt?_summaryFile`: the file of that name in the output folder holds that form.
  * `summary_reads_back_iff`: and exactly then its file reads back as the summary of the report.
-/
import FigureData.Proofs.Dataset.Scalars
import FigureData.Proofs.Export.Summary
import FigureData.Proofs.Extraction.Scalars
import FigureData.Proofs.Run.CostFigures
import FigureData.Proofs.Run.Output

namespace FigureData

open Outcome

/-! ## Scalars of a run -/

section Scalars

variable {ctx : Context} {t : FileTree} {intake : Intake} {entities : List Entity}

/-- The error rates that are taken in are finite. -/
theorem isFinite_errorRates (h : takeIn ctx .errorRate t = .ok (intake, entities)) :
    ∀ e ∈ entities, ∀ x ∈ e.scalars.entries, x.2.isFinite = true := by
  refine takeIn_listed (.errorRates Descriptor.errorRate.headers)
    (Extraction.readNetworks Descriptor.errorRate.headers) rfl (fun _ _ => rfl) (fun _ => rfl)
    ?_ (fun _ _ hrates => hrates) h
  intro r more hr hmore
  exact Extraction.isFinite_readNetworks (fun j hj => isFinite_of_inputItems hr hj) hmore

/-- The counts that are taken in are words. -/
theorem hasWordCount_classification (h : takeIn ctx .classification t = .ok (intake, entities)) :
    ∀ e ∈ entities, Extraction.HasWordCount e := by
  refine takeIn_listed .classification Extraction.readOutcomes rfl (fun _ _ => rfl) (fun _ => rfl)
    ?_ (fun _ _ hcount => hcount) h
  intro r more _ hmore
  exact Extraction.counts_of_readOutcomes hmore

variable {e : Evaluation} {c : Collected}

/-- A number in a column of scalars is a scalar of an entity that was taken in. -/
theorem exists_scalar_of_collect (h : collect ctx e t = .ok c) :
    ∃ intake entities, takeIn ctx e t = .ok (intake, entities) ∧
      ∀ header, e.descriptor.columns.find? (fun c => c.header = header) = some (.scalar header) →
        ∀ x ∈ c.dataset.numbers header,
          ∃ entity ∈ entities, entity.scalars.find? header = some x := by
  obtain ⟨intake, entities, kept, htake, hdataset, hkept⟩ := collect_eq_ok h
  refine ⟨intake, entities, htake, fun header hcolumn x hx => ?_⟩
  obtain ⟨s, hs, hfind⟩ := Dataset.mem_numbers_scalar hdataset hcolumn hx
  obtain ⟨entity, hentity, hsummary⟩ := hkept s hs
  rw [(Entity.summarize_kept_fields hsummary).2.2] at hfind
  exact ⟨entity, hentity, hfind⟩

/-- The columns that an evaluation takes scalars of hold finite numbers. -/
theorem isTame_of_collect (h : collect ctx e t = .ok c) :
    ∀ rule ∈ e.descriptor.scalars, rule.IsTame c.dataset := by
  obtain ⟨intake, entities, htake, hscalar⟩ := exists_scalar_of_collect h
  intro rule hrule
  cases e with
  | errorRate =>
    have hcolumns : ∀ name ∈ Descriptor.orderings, name ++ "_median" ≠ "max_ratio" ∧
        Descriptor.errorRate.columns.find? (fun c => c.header = name) = some (.scalar name) := by
      simp only [Descriptor.orderings, List.forall_mem_cons]
      exact ⟨⟨by decide, rfl⟩, ⟨by decide, rfl⟩, ⟨by decide, rfl⟩, by simp⟩
    obtain ⟨name, hname, rfl⟩ := List.mem_map.1 hrule
    obtain ⟨hother, hcolumn⟩ := hcolumns name hname
    refine ⟨hother, fun x hx => ?_⟩
    obtain ⟨entity, hentity, hfind⟩ := hscalar name hcolumn x hx
    exact isFinite_errorRates htake entity hentity (name, x) (mem_of_entryAt? hfind)
  | costComparison number =>
    obtain rfl | rfl | rfl : rule = .ratioSummary "fraction" ∨
        rule = .fractionAtOrBelow "mid_point" "fraction" 0.5 ∨
        rule = .fractionAtOrBelow "zero_point" "fraction" 0.0 := by
      simpa [Evaluation.descriptor, Descriptor.costComparison] using hrule
    · trivial
    · exact (by decide : "mid_point" ≠ "max_ratio")
    · exact (by decide : "zero_point" ≠ "max_ratio")
  | classification =>
    rw [List.mem_singleton.1 hrule]
    refine ⟨by decide, fun x hx => ?_⟩
    obtain ⟨entity, hentity, hfind⟩ := hscalar "count" rfl x hx
    obtain ⟨n, hn, hcount⟩ := hasWordCount_classification htake entity hentity
    rw [hcount] at hfind
    exact ⟨n, hn, (Option.some.inj hfind).symm⟩
  | costBoxplot | schedulingTime | complexity | stateExploration | packetLoss => cases hrule

end Scalars

/-! ## Reading the summary back -/

section Run

variable {ctx : Context} {e : Evaluation} {now : String} {t t' : FileTree} {r : RunReport}

/-- The summary of a run has a form of its own exactly when its counts are words and its largest
ratio is finite. -/
theorem isWritable_iff (h : run ctx e now t = (t', .ok r)) :
    r.summary.IsWritable ↔ r.summary.HasWordCounts ∧
      ∀ x, r.summary.scalars.find? "max_ratio" = some x → x.isFinite = true := by
  obtain ⟨p, paths, hprepare, -, rfl⟩ := run_eq_ok h
  obtain ⟨hcollect, hbundle⟩ := prepare_eq_ok hprepare
  have hsummary : (p.report ctx e paths).summary =
      p.collected.dataset.summaryFor p.bundle.table _ := (Dataset.bundle_fields hbundle).2.1
  rw [hsummary]
  constructor
  · intro hwritable
    refine ⟨hwritable.toHasWordCounts, fun x hx => hwritable.numbers x ?_⟩
    exact List.mem_append_left _ (List.mem_map_of_mem (mem_of_entryAt? hx))
  · rintro ⟨hcounts, hmax⟩
    obtain ⟨-, -, kept, -, hdataset, -⟩ := collect_eq_ok hcollect
    have hfigures := Dataset.figuresFinite_ofDescriptor hdataset hcounts.rows.le
      (isTame_of_collect hcollect)
    refine ⟨hcounts, List.forall_mem_append.2 ⟨?_, ?_⟩⟩
    · intro x hx
      obtain ⟨⟨name, y⟩, hentry, rfl⟩ := List.mem_map.1 hx
      by_cases hname : name = "max_ratio"
      · subst hname
        exact hmax y (SortedMap.find?_of_mem hentry)
      · exact hfigures.scalars (name, y) hentry hname
    · show ∀ x ∈ (p.collected.dataset.branch.map CurveBranch.numbers).getD [], x.isFinite = true
      have hbranch := hfigures.branch
      cases hdrawn : p.collected.dataset.branch with
      | none => exact nofun
      | some b =>
        cases b with
        | bounded => exact nofun
        | withOutliers maxRatio fraction =>
          obtain ⟨hfraction, hratio⟩ := hbranch maxRatio fraction hdrawn
          exact List.forall_mem_cons.2
            ⟨hmax maxRatio hratio, List.forall_mem_singleton.2 hfraction⟩

/-- What a run leaves in the file with the summary. -/
theorem readAt?_summaryFile (ht : t.PlainNames) (h : run ctx e now t = (t', .ok r)) :
    t'.readAt? (Path.join r.outputFolder summaryFile) =
      some (Bytes.ofText r.summary.encode.toJson.canonical) := by
  obtain ⟨p, paths, hprepare, hwrite, rfl⟩ := run_eq_ok h
  obtain ⟨folder, hwritten⟩ := written_of_writeTo ht hprepare hwrite
  obtain ⟨-, houtput⟩ := hwritten.hasFolder
  have hfile : (summaryFile, p.bundle.summaryBytes) ∈ p.bundle.files := by simp [Bundle.files]
  have hlocated : t'.locate? (Path.join (ctx.outputFolder e) summaryFile) =
      some (summaryFile :: outputLocation e folder) :=
    (houtput.locate?_join (hwritten.isName _ hfile)).trans (if_pos (hwritten.canName _ hfile))
  have hnode := hwritten.replaced.contents _ hfile
  show (t'.locate? (Path.join (ctx.outputFolder e) summaryFile)).bind t'.contentAt? = _
  rw [hlocated, Option.bind_some]
  unfold FileTree.contentAt?
  rw [hnode]
  rfl

/-- The file with the summary of a run reads back as the summary of its report exactly when its
counts are words and its largest ratio is finite, provided that the finite numbers in it are
written so that they read back. -/
theorem summary_reads_back_iff (ht : t.PlainNames) (h : run ctx e now t = (t', .ok r))
    (hprinted : ∀ x ∈ r.summary.numbers, x.isFinite = true → Json.ReadsBack x) :
    (t'.readAt? (Path.join r.outputFolder summaryFile)).bind ScalarSummary.read? =
        some r.summary ↔
      r.summary.HasWordCounts ∧
        ∀ x, r.summary.scalars.find? "max_ratio" = some x → x.isFinite = true := by
  rw [readAt?_summaryFile ht h, Option.bind_some, ScalarSummary.read?_written hprinted,
    isWritable_iff h]

end Run

/-- The summary of a cost comparison on one network, with its ratio of two thirds. -/
theorem completedRun_reads_back :
    ∃ t' r, run freshContext (.costComparison 6) "now" completedRun = (t', .ok r) ∧
      r.summary.numbers.length = 5 ∧
      (t'.readAt? "r/result_6/plot/summary.json").bind ScalarSummary.read? = some r.summary := by
  have hplain : completedRun.PlainNames := by decide +kernel
  have hrun : (run freshContext (.costComparison 6) "now" completedRun).2.toOption.any
      (fun r => r.outputFolder = "r/result_6/plot" ∧
        r.summary.numbers = [0.0, 1.0, 0.6666666666666666, 0.0, 0.0] ∧
        r.summary.rows = 1 ∧ r.summary.provenance.inputFiles = 1 ∧
        r.summary.provenance.droppedEntities = 0) = true := by
    decide +kernel
  have hprinted : ∀ x ∈ [0.0, 1.0, 0.6666666666666666, 0.0, 0.0],
      x.isFinite = true ∧ Json.ReadsBack x := by
    decide +kernel
  obtain ⟨r, hr, htest⟩ := exists_run hrun
  obtain ⟨hfolder, hnumbers, hrows, hinput, hdropped⟩ := of_decide_eq_true htest
  rw [← hnumbers] at hprinted
  have hcounts : r.summary.HasWordCounts :=
    ⟨by rw [hrows]; decide, by rw [hinput]; decide, by rw [hdropped]; decide⟩
  refine ⟨_, r, hr, by rw [hnumbers]; rfl, ?_⟩
  have hread := (summary_reads_back_iff hplain hr fun x hx _ => (hprinted x hx).2).2
    ⟨hcounts, fun x hx => (hprinted x ?_).1⟩
  · rw [hfolder] at hread
    exact hread
  · exact List.mem_append_left _ (List.mem_map_of_mem (mem_of_entryAt? hx))

/-- A network whose costs lie so far apart that their ratio overflows. -/
def overflowingRun : FileTree :=
  resultTree (.costComparison 6) [("A.json", .ofText (costText "5e-324" "1" "1" "1e308"))]

/-- The run ends well and its finite numbers read back, but not its summary. -/
theorem overflowing_summary_lost :
    ∃ t' r, run freshContext (.costComparison 6) "now" overflowingRun = (t', .ok r) ∧
      (∀ x ∈ r.summary.numbers, x.isFinite = true → Json.ReadsBack x) ∧
      (t'.readAt? (Path.join r.outputFolder summaryFile)).bind ScalarSummary.read? ≠
        some r.summary := by
  have hplain : overflowingRun.PlainNames := by decide +kernel
  have hrun : (run freshContext (.costComparison 6) "now" overflowingRun).2.toOption.any
      (fun r => r.summary.numbers = [0.0, 0.0, 1.0 / 0.0, 0.0, 0.0, 1.0 / 0.0, 0.0]) = true := by
    decide +kernel
  have hprinted : ∀ x ∈ [0.0, 0.0, 1.0 / 0.0, 0.0, 0.0, 1.0 / 0.0, 0.0],
      x.isFinite = true → Json.ReadsBack x := by
    decide +kernel
  obtain ⟨r, hr, htest⟩ := exists_run hrun
  have hnumbers := of_decide_eq_true htest
  rw [← hnumbers] at hprinted
  refine ⟨_, r, hr, hprinted, fun hread => ?_⟩
  rw [readAt?_summaryFile hplain hr, Option.bind_some,
    ScalarSummary.read?_written hprinted] at hread
  have hfinite := hread.numbers (1.0 / 0.0) (by rw [hnumbers]; simp)
  exact absurd hfinite (by decide)

end FigureData
