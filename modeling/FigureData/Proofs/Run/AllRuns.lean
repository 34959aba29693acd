/-
  Running every evaluation is the same as running each of them alone.

  The evaluations can be run in any order, at any time and with any of them failing, as each of
  them has a folder of its own.  The one thing that they share is the end of the program: when a
  number is to be written with more decimals than can be, no run after that is carried out and
  what has been reported is lost.

  Proved:
  * `Merges.retimed`: trees in which the same runs are merged are the same apart from times.
  * `reports_of_runAll`: each evaluation is reported with what it reports alone.
  * `runAll_independent`: reports, tree and output of all runs are those of the runs alone,
    unless one of these ends the program.
  * `one_run_ends_all`: a run that does.
-/
import FigureData.CommandLine.Outcome
import FigureData.Proofs.Export.Table
import FigureData.Proofs.Run.Independence

namespace FigureData

open Outcome

section Runs

variable {ctx : Context} {now later : String} {t : FileTree}

/-! ## One order and another -/

/-- The same runs leave the same tree, apart from times. -/
theorem Merges.retimed (ht : t.PlainNames) {es others : List Evaluation} {merged merged' : FileTree}
    (h : Merges ctx now t t es merged) (h' : Merges ctx later t t others merged')
    (hperm : others.Perm es) (l : Location) :
    Node.Retimed now later (merged.nodeAt? l) (merged'.nodeAt? l) := by
  by_cases hinside : ∃ e ∈ es, ∃ folder, inputFolder? ctx e t = some folder ∧ folder <:+ l
  · obtain ⟨e, he, folder, hfolder, hl⟩ := hinside
    rw [h.inside e he folder hfolder l hl, h'.inside e (hperm.mem_iff.2 he) folder hfolder l hl]
    exact (run_retimed now later ht (.refl ctx e t)).2 folder hfolder l hl
  · have houtside : ∀ e ∈ es, ∀ folder, inputFolder? ctx e t = some folder →
        ¬ outputLocation e folder <:+ l := by
      intro e he folder hfolder hl
      exact hinside ⟨e, he, folder, hfolder, (List.suffix_cons _ _).trans hl⟩
    rw [h.outside l houtside, h'.outside l fun e he => houtside e (hperm.mem_iff.1 he)]
    exact .refl _

/-! ## Reports -/

theorem outcome?_eq_some {e : Evaluation} {x : Evaluation × Except Fault RunReport}
    (h : outcome? ctx now t e = some x) :
    x.1 = e ∧ (run ctx e now t).2 = x.2.mapError .fault := by
  unfold outcome? at h
  split at h
  next => cases h
  next hrun =>
    cases h
    exact ⟨rfl, hrun⟩
  next hrun =>
    cases h
    exact ⟨rfl, hrun⟩

theorem outcome?_eq_none_iff {e : Evaluation} :
    outcome? ctx now t e = none ↔ (run ctx e now t).2 = .error .tooManyPlaces := by
  unfold outcome?
  split
  next h => simp [h]
  next h => simp [h]
  next h => simp [h]

/-- Whether a run ends the program does not depend on the time. -/
theorem ends_iff (now later : String) (ht : t.PlainNames) (e : Evaluation) :
    (run ctx e later t).2 = .error .tooManyPlaces ↔ outcome? ctx now t e = none := by
  rw [outcome?_eq_none_iff, (run_retimed now later ht (.refl ctx e t)).1]
  cases (run ctx e now t).2 with
  | ok r => simp [Except.map]
  | error stop => simp [Except.map]

theorem nodup_folders : (Evaluation.all.map Evaluation.folder).Nodup := by decide +kernel

/-- In any order, all runs end when none of them ends the program alone. -/
theorem merges_of_order (now : String) (ht : t.PlainNames) {order : List Evaluation}
    (horder : order.Perm Evaluation.all)
    (hall : ∀ e ∈ Evaluation.all, outcome? ctx now t e ≠ none) :
    (runEach ctx now t order).2.isSome = true ∧
      Merges ctx now t t order (runEach ctx now t order).1 := by
  have hsome : ∀ e ∈ order, (outcome? ctx now t e).isSome = true := by
    intro e he
    exact Option.isSome_iff_ne_none.2 (hall e (horder.mem_iff.1 he))
  obtain ⟨hreports, hmerges⟩ := runEach_spec now ht
    ((horder.map Evaluation.folder).nodup_iff.2 nodup_folders)
    fun e _ => AgreeFor.refl ctx e t
  rw [List.takeWhile_eq_self_iff.2 hsome] at hmerges
  refine ⟨?_, hmerges⟩
  rw [hreports, isSome_mapM]
  exact List.all_eq_true.2 hsome

end Runs

/-! ## Output -/

/-- What is printed for an evaluation that is run alone: a line for each path written. -/
def linesAlone (ctx : Context) (now : String) (t : FileTree) (e : Evaluation) : String :=
  match (run ctx e now t).2 with
  | .ok report => report.lines
  | .error _ => ""

theorem outcomeOfRuns_success_iff (reports : List (Evaluation × Except Fault RunReport)) :
    (outcomeOfRuns reports).status = .success ↔ ∀ x ∈ reports, ∃ r, x.2 = .ok r := by
  unfold outcomeOfRuns
  simp only [ite_eq_left_iff, reduceCtorEq, imp_false, not_not, List.isEmpty_iff,
    List.filterMap_eq_nil_iff]
  refine forall₂_congr fun x _ => ?_
  cases x.2 with
  | ok r => simp
  | error fault => simp

section All

variable {ctx : Context} {now : String} {t : FileTree}

/-- The command does what all runs do, and ends with them if they end. -/
theorem execute_runAll {options : RunOptions} (h : options.context t = .ok ctx) :
    (Command.runAll options).execute now t =
      ((runAll ctx now t).1, ((runAll ctx now t).2.map outcomeOfRuns).getD .aborted) := by
  simp only [Command.execute, h]

/-- The outcome of all runs is that of the runs alone. -/
structure CommandOutcome.IsOfRunsAlone (outcome : CommandOutcome) (ctx : Context) (now : String)
    (t : FileTree) : Prop where
  /-- It is a success when every run is. -/
  success : outcome.status = .success ↔ ∀ e ∈ Evaluation.all, ∃ r, (run ctx e now t).2 = .ok r
  /-- The paths written by the runs that succeed, in the order of the evaluations. -/
  output : outcome.output = String.join (Evaluation.all.map (linesAlone ctx now t))

/-- Whatever the time, all runs end the program exactly when one of them ends it alone. -/
theorem runAll_eq_none_iff (ctx : Context) (now later : String) (ht : t.PlainNames) :
    (runAll ctx now t).2 = none ↔
      ∃ e ∈ Evaluation.all, (run ctx e later t).2 = .error .tooManyPlaces := by
  obtain ⟨hreports, -⟩ := runEach_spec now ht nodup_folders
    fun e _ => AgreeFor.refl ctx e t
  unfold runAll
  rw [hreports, ← Option.isSome_eq_false_iff.trans Option.isNone_iff_eq_none, isSome_mapM,
    List.all_eq_false]
  refine exists_congr fun e => and_congr_right fun _ => ?_
  rw [ends_iff now later ht e]
  simp

/-- Each evaluation is reported, with what it reports alone at any other time but for that time. -/
theorem reports_of_runAll (later : String) (ht : t.PlainNames)
    {reports : List (Evaluation × Except Fault RunReport)}
    (h : (runAll ctx now t).2 = some reports) :
    reports.map Prod.fst = Evaluation.all ∧
      ∀ x ∈ reports,
        (run ctx x.1 later t).2 = (x.2.map (RunReport.at · later)).mapError .fault := by
  obtain ⟨hreports, -⟩ := runEach_spec now ht nodup_folders
    fun e _ => AgreeFor.refl ctx e t
  have hmapM : Evaluation.all.mapM (outcome? ctx now t) = some reports := hreports.symm.trans h
  constructor
  · refine (map_eq_of_forall₂ ?_).trans (List.map_id _)
    exact (mapM_eq_some hmapM).imp fun e x hx => (outcome?_eq_some hx).1
  · intro x hx
    obtain ⟨e, he, houtcome⟩ := mem_of_mapM hmapM hx
    obtain ⟨rfl, hrun⟩ := outcome?_eq_some houtcome
    rw [(run_retimed now later ht (.refl ctx x.1 t)).1, hrun]
    cases x.2 <;> rfl

/-- What is made of the reports of the runs is the outcome of the runs alone. -/
theorem isOfRunsAlone_outcomeOfRuns {reports : List (Evaluation × Except Fault RunReport)}
    {later : String} (hfirst : reports.map Prod.fst = Evaluation.all)
    (hruns : ∀ x ∈ reports,
      (run ctx x.1 later t).2 = (x.2.map (RunReport.at · later)).mapError .fault) :
    (outcomeOfRuns reports).IsOfRunsAlone ctx later t := by
  constructor
  · rw [outcomeOfRuns_success_iff, ← hfirst, List.forall_mem_map]
    refine forall₂_congr fun x hx => ?_
    rw [hruns x hx]
    cases x.2 with
    | ok r => simp [Except.map, Except.mapError]
    | error fault => simp [Except.map, Except.mapError]
  · unfold outcomeOfRuns
    rw [← hfirst, List.map_map]
    refine congrArg String.join (List.map_congr_left fun x hx => ?_)
    show _ = linesAlone ctx later t x.1
    unfold linesAlone
    rw [hruns x hx]
    cases x.2 <;> rfl

/-- Evaluations that are all run one after the other report what each of them reports alone at any
other time but for that time, leave the same tree in whatever order they are run, and print the
paths of those that succeed in numeric order.  The program ends at once exactly when one of them
ends it alone. -/
theorem runAll_independent (ht : t.PlainNames) (later : String) :
    ((runAll ctx now t).2 = none ↔
      ∃ e ∈ Evaluation.all, (run ctx e later t).2 = .error .tooManyPlaces) ∧
    ∀ reports, (runAll ctx now t).2 = some reports →
      reports.map Prod.fst = Evaluation.all ∧
      (∀ x ∈ reports,
        (run ctx x.1 later t).2 = (x.2.map (RunReport.at · later)).mapError .fault) ∧
      (∀ order, order.Perm Evaluation.all → (runEach ctx later t order).2.isSome = true ∧
        ∀ l, Node.Retimed now later ((runAll ctx now t).1.nodeAt? l)
          ((runEach ctx later t order).1.nodeAt? l)) ∧
      (Evaluation.all.Pairwise fun a b => a.number < b.number) ∧
      ∀ options : RunOptions, options.context t = .ok ctx →
        ∃ outcome, (Command.runAll options).execute now t = ((runAll ctx now t).1, outcome) ∧
          outcome.IsOfRunsAlone ctx later t := by
  have hnone := runAll_eq_none_iff ctx now later ht
  refine ⟨hnone, fun reports hsome => ?_⟩
  obtain ⟨hfirst, hruns⟩ := reports_of_runAll later ht hsome
  have hall : ∀ e ∈ Evaluation.all, ∀ time, outcome? ctx time t e ≠ none := by
    intro e he time hends
    have hno : ¬ ∃ e ∈ Evaluation.all, (run ctx e later t).2 = .error .tooManyPlaces := by
      rw [← hnone, hsome]
      simp
    exact hno ⟨e, he, (ends_iff time later ht e).2 hends⟩
  refine ⟨hfirst, hruns, ?_, by decide, ?_⟩
  · intro order horder
    obtain ⟨-, hmerges⟩ := merges_of_order now ht (.refl _) fun e he => hall e he now
    obtain ⟨hends, hmerges'⟩ := merges_of_order later ht horder fun e he => hall e he later
    exact ⟨hends, hmerges.retimed ht hmerges' horder⟩
  · intro options hoptions
    refine ⟨outcomeOfRuns reports, ?_, isOfRunsAlone_outcomeOfRuns hfirst hruns⟩
    rw [execute_runAll hoptions, hsome]
    rfl

end All

theorem textRun_independent : ∃ reports, (runAll freshContext "now" textRun).2 = some reports ∧
    (∃ x ∈ reports, ∃ r, x = (.errorRate, .ok r)) ∧
    ∀ x ∈ reports, (run freshContext x.1 "later" textRun).2 =
      (x.2.map (RunReport.at · "later")).mapError .fault := by
  have hplain : textRun.PlainNames := by decide +kernel
  have htest : (runAll freshContext "now" textRun).2.any (fun reports => reports.any fun x =>
      x.1 == .errorRate && x.2.isOk) = true := by
    decide +kernel
  obtain ⟨reports, hreports, hany⟩ := (Option.any_eq_true _ _).1 htest
  obtain ⟨x, hx, hx'⟩ := List.any_eq_true.1 hany
  obtain ⟨-, halone⟩ := runAll_independent hplain "later"
  obtain ⟨-, hruns, -⟩ := halone reports hreports
  refine ⟨reports, hreports, ⟨x, hx, ?_⟩, hruns⟩
  obtain ⟨e, outcome⟩ := x
  rw [Bool.and_eq_true, beq_iff_eq] at hx'
  obtain ⟨rfl, hok⟩ := hx'
  cases outcome with
  | ok r => exact ⟨r, rfl⟩
  | error fault => cases hok

/-! ## The end of the program -/

/-- Options that ask for more decimals than can be written. -/
def wideOptions : RunOptions := { root := some "r", precision := some 65536 }

/-- The context of these options, which is accepted. -/
def wideContext : Context := ⟨{ root := "r", output := { precision := some 65536 } }, .fresh⟩

/-- A network with success rates, beside the folder of another evaluation. -/
def ratedRun : FileTree :=
  ((resultTree .errorRate [("a.json", .ofText ("[\x7b\"random_permutations\":" ++
    "\x7b\"result\":\x7b\"success_rate\":1\x7d\x7d,\"random_router_order\":" ++
    "\x7b\"result\":\x7b\"success_rate\":1\x7d\x7d,\"insert_before_order\":" ++
    "\x7b\"result\":\x7b\"success_rate\":1\x7d\x7d\x7d]"))]).makeFolder?
      Evaluation.costBoxplot.folder ["r"]).getD ∅

/-- The first evaluation ends the program, so the second, which alone succeeds, is neither carried
out nor reported, and its output depends on the order of the two. -/
theorem one_run_ends_all :
    ratedRun.PlainNames ∧ wideOptions.context ratedRun = .ok wideContext ∧
      (∃ r, (run wideContext .costBoxplot "now" ratedRun).2 = .ok r ∧ r.lines ≠ "") ∧
      (runAll wideContext "now" ratedRun).2 = none ∧
      ((Command.runAll wideOptions).execute "now" ratedRun).2.output = "" ∧
      (runEach wideContext "now" ratedRun [.errorRate, .costBoxplot]).1.isFolderAt
        "r/result_2/plot" = false ∧
      (runEach wideContext "now" ratedRun [.costBoxplot, .errorRate]).1.isFolderAt
        "r/result_2/plot" = true := by
  have hcontext : wideOptions.context ratedRun = .ok wideContext := rfl
  have halone : (run wideContext .costBoxplot "now" ratedRun).2.toOption.any
      (fun r => r.lines ≠ "") = true := by
    decide +kernel
  obtain ⟨r, hr, hlines⟩ := exists_of_any halone
  have hstops : outcome? wideContext "now" ratedRun .errorRate = none :=
    Option.isNone_iff_eq_none.1 (by decide +kernel)
  have hkept := run_of_outcome?_eq_none hstops
  have hends : ∀ rest, runEach wideContext "now" ratedRun (.errorRate :: rest) =
      (ratedRun, none) := by
    intro rest
    rw [runEach_cons, hstops, hkept]
  refine ⟨by decide +kernel, hcontext, ⟨r, hr, of_decide_eq_true hlines⟩, ?_, ?_, ?_,
    by decide +kernel⟩
  · exact congrArg Prod.snd (hends _)
  · rw [execute_runAll hcontext, runAll, Evaluation.all, hends]
    rfl
  · rw [hends]
    decide +kernel

end FigureData
