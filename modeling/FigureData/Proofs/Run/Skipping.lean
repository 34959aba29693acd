/-
  Evaluations that skip files.

  A file that is refused leaves no trace but its name: the run ends as if the file had never
  been there.  What stops such a run is a file that is not text, because it is refused with
  a fault of reading, and those are never downgraded.

  Proved:
  * `collectFrom_of_takeAll_map`: of an intake that only lists other names the run lists only
    other names.
  * `collect_withoutRejected`: a run and the same run on the tree without the refused files.
  * `ends_well_iff_all_text`: such a run ends well exactly when every file it reads is text,
    and then every file is counted or listed.
  * `stopped_by_binary`: a file that is not text, and a run that it stops.
-/
import FigureData.Proofs.Run.InputFiles

namespace FigureData

open Outcome

/-! ## Runs on given files -/

/-- The intake of an evaluation that has read no file. -/
def Intake.start (e : Evaluation) : Intake := { extractor := .ofDescriptor e.descriptor }

/-- What a run makes of the outcomes of its files. -/
def collectFrom (ctx : Context) (e : Evaluation) (items : List (Except Fault Record)) :
    Except Fault Collected := do
  let intake ← e.inContext ((Intake.start e).takeAll e.descriptor.filePolicy items)
  let entities ← e.inContext intake.extractor.collected
  evaluate ctx e intake entities

section Items

variable {ctx : Context} {e : Evaluation} {t : FileTree}

/-- A run is made of the outcomes of its files. -/
theorem collect_eq_collectFrom {l : Loader} {items : List (Except Fault Record)}
    (hl : Loader.ofDescriptor (ctx.resultFolder e) e.descriptor = .ok l)
    (hitems : l.records t = .ok items) : collect ctx e t = collectFrom ctx e items := by
  rw [collect_eq]
  unfold takeIn collectFrom
  rw [hl]
  show ((l.records t >>= _) >>= _) = _
  rw [hitems]
  show ((e.inContext ((Intake.start e).takeAll e.descriptor.filePolicy items) >>= _) >>= _) = _
  simp only [bind_assoc, pure_bind]

/-- Of an intake that only lists other names, the run lists only other names. -/
theorem collectFrom_of_takeAll_map {items items' : List (Except Fault Record)} {names : List String}
    (h : (Intake.start e).takeAll e.descriptor.filePolicy items =
      ((Intake.start e).takeAll e.descriptor.filePolicy items').map fun s =>
        { s with skipped := names }) :
    collectFrom ctx e items =
      (collectFrom ctx e items').map fun c => { c with skippedFiles := names } := by
  unfold collectFrom
  rw [h]
  cases (Intake.start e).takeAll e.descriptor.filePolicy items' with
  | error fault => rfl
  | ok intake =>
    show (e.inContext intake.extractor.collected >>= _) =
      (e.inContext intake.extractor.collected >>= _).map _
    cases e.inContext intake.extractor.collected with
    | error fault => rfl
    | ok entities => exact evaluate_skipped ctx e intake entities names

/-- What a run that ends well has counted and skipped. -/
theorem collectFrom_eq_ok {items : List (Except Fault Record)} {c : Collected}
    (h : collectFrom ctx e items = .ok c) :
    ∃ intake, (Intake.start e).takeAll e.descriptor.filePolicy items = .ok intake ∧
      c.skippedFiles = intake.skipped ∧ c.provenance.inputFiles = intake.inputFiles := by
  unfold collectFrom at h
  obtain ⟨intake, hintake, h⟩ := bind_eq_ok h
  obtain ⟨entities, -, h⟩ := bind_eq_ok h
  exact ⟨intake, inContext_eq_ok_iff.1 hintake, evaluate_fields h⟩

end Items

/-! ## Files that leave no trace -/

section Trace

variable {ctx : Context} {e : Evaluation} {t : FileTree}

/-- The outcomes of the files that are left are those that are not refused. -/
theorem filter_read {l : Loader}
    (hl : Loader.ofDescriptor (ctx.resultFolder e) e.descriptor = .ok l)
    (files : List (String × Bytes)) :
    ((files.filter fun f => !refuses ctx e f).map fun f => l.read f.1 f.2) =
      (files.map fun f => l.read f.1 f.2).filter fun item =>
        !Intake.isRejected (.ofDescriptor e.descriptor) item := by
  rw [List.filter_map]
  congr 1
  apply List.filter_congr
  intro f _
  rw [refuses_eq hl]
  rfl

/-- A run that skips files ends like the run on the tree without the refused files, apart
from their names. -/
theorem collect_withoutRejected (ctx : Context) (t : FileTree)
    (he : e.descriptor.filePolicy = .skipAndWarn) :
    collect ctx e t = (collect ctx e (withoutRejected ctx e t)).map fun c =>
      { c with skippedFiles := rejectedFiles ctx e t } := by
  obtain ⟨l, hl, -⟩ := exists_loader ctx e
  cases hfolder : inputFolder? ctx e t with
  | none =>
    have hmissing := records_missing hl hfolder
    have htree : withoutRejected ctx e t = t := by
      unfold withoutRejected
      rw [hfolder]
    rw [htree, collect_eq]
    unfold takeIn
    rw [hl]
    show ((l.records t >>= _) >>= _) = ((l.records t >>= _) >>= _).map _
    rw [hmissing]
    rfl
  | some folder =>
    have hitems := records_eq hl hfolder
    have hitems' := records_eq hl (inputFolder?_withoutRejected.trans hfolder)
    rw [matchingFiles_withoutRejected, filter_read hl] at hitems'
    rw [collect_eq_collectFrom hl hitems, collect_eq_collectFrom hl hitems']
    refine collectFrom_of_takeAll_map ?_
    have hnames : rejectedFiles ctx e t = Intake.rejectedNames (.ofDescriptor e.descriptor)
        ((matchingFiles ctx e t).map fun f => l.read f.1 f.2) := by
      rw [rejectedNames_read]
      unfold rejectedFiles
      congr 1
      apply List.filter_congr
      intro f _
      exact refuses_eq hl f
    rw [hnames, he]
    exact Intake.takeAll_remove_rejected (s := Intake.start e) (.ofDescriptor e.descriptor) rfl
      _ [] []

/-- Of the files that are left none is skipped. -/
theorem skippedFiles_withoutRejected (he : e.descriptor.filePolicy = .skipAndWarn) {c : Collected}
    (h : collect ctx e (withoutRejected ctx e t) = .ok c) : c.skippedFiles = [] := by
  obtain ⟨l, hl, -⟩ := exists_loader ctx e
  cases hfolder : inputFolder? ctx e (withoutRejected ctx e t) with
  | none =>
    rw [collect_eq] at h
    unfold takeIn at h
    obtain ⟨x, hx, -⟩ := bind_eq_ok h
    obtain ⟨l', hl', hx⟩ := bind_eq_ok hx
    obtain ⟨items, hitems, -⟩ := bind_eq_ok hx
    rw [records_missing hl' hfolder] at hitems
    cases hitems
  | some folder =>
    have hitems := records_eq hl hfolder
    rw [matchingFiles_withoutRejected, filter_read hl] at hitems
    rw [collect_eq_collectFrom hl hitems] at h
    obtain ⟨intake, hintake, hskipped, -⟩ := collectFrom_eq_ok h
    rw [he] at hintake
    have hnone : ∀ item ∈ (((matchingFiles ctx e t).map fun f => l.read f.1 f.2).filter fun item =>
        !Intake.isRejected (.ofDescriptor e.descriptor) item),
        Intake.isRejected (.ofDescriptor e.descriptor) item = false := by
      intro item hi
      simpa using (List.mem_filter.1 hi).2
    rw [hskipped]
    exact Intake.skipped_of_takeAll (s := Intake.start e) rfl hnone hintake

/-- A skipped file leaves no trace: with and without the refused files, a run ends in the same
fault or with the same result, and only the first one lists them, by name in ascending order. -/
theorem skipped_files_leave_no_trace {ctx : Context} {e : Evaluation} {t : FileTree}
    (he : e.descriptor.filePolicy = .skipAndWarn) :
    (∀ fault, collect ctx e t = .error fault ↔
      collect ctx e (withoutRejected ctx e t) = .error fault) ∧
    (∀ c, collect ctx e t = .ok c → c.skippedFiles = rejectedFiles ctx e t ∧
      collect ctx e (withoutRejected ctx e t) = .ok { c with skippedFiles := [] }) ∧
    (∀ c, collect ctx e (withoutRejected ctx e t) = .ok c → c.skippedFiles = [] ∧
      collect ctx e t = .ok { c with skippedFiles := rejectedFiles ctx e t }) ∧
    (rejectedFiles ctx e t).Pairwise (· < ·) := by
  have heq := collect_withoutRejected ctx t he
  refine ⟨?_, ?_, ?_, rejectedFiles_sorted⟩
  · intro fault
    rw [heq]
    exact map_eq_error
  · intro c hc
    rw [hc] at heq
    obtain ⟨c', hc', hsame⟩ := map_eq_ok heq.symm
    have hnone := skippedFiles_withoutRejected he hc'
    rw [hc', ← hsame]
    refine ⟨rfl, congrArg _ ?_⟩
    cases c'
    cases hnone
    rfl
  · intro c hc
    refine ⟨skippedFiles_withoutRejected he hc, ?_⟩
    rw [heq, hc]
    rfl

end Trace

/-- A file that is refused between two that are not. -/
def mixedRun : FileTree :=
  resultTree .errorRate
    [("a.json", .ofText "[]"), ("b.json", .ofText "[1]"), ("c.json", .ofText "[]")]

theorem mixedRun_skips : ∃ c, collect freshContext .errorRate mixedRun = .ok c ∧
    c.provenance.inputFiles = 2 ∧ c.skippedFiles = ["b.json"] := by
  have hrejected : rejectedFiles freshContext .errorRate mixedRun = ["b.json"] := by
    decide +kernel
  have hrun : (collect freshContext .errorRate mixedRun).toOption.any
      (fun c => c.provenance.inputFiles = 2) = true := by
    decide +kernel
  obtain ⟨c, hcollect, hcount⟩ := exists_of_any hrun
  have hskipped := ((skipped_files_leave_no_trace rfl).2.1 c hcollect).1
  exact ⟨c, hcollect, of_decide_eq_true hcount, hskipped.trans hrejected⟩

/-! ## Files that are no text -/

section Text

variable {e : Evaluation}

/-- The evaluations that skip files are those of error rates and of scheduling times. -/
theorem eq_of_skipAndWarn (he : e.descriptor.filePolicy = .skipAndWarn) :
    e = .errorRate ∨ e = .schedulingTime := by
  cases e with
  | errorRate => exact .inl rfl
  | schedulingTime => exact .inr rfl
  | _ => cases he

/-- Their strategies have no files of their own, so no entity is incomplete. -/
theorem exists_collected (he : e.descriptor.filePolicy = .skipAndWarn) {x : Extractor}
    (hx : x.fresh = .ofDescriptor e.descriptor) : ∃ entities, x.collected = .ok entities := by
  cases x with
  | strategies rules m =>
    refine ⟨_, Extraction.StrategyRules.complete_eq_ok ?_ _⟩
    intro s hs
    rcases eq_of_skipAndWarn he with rfl | rfl
    · cases hx
    · cases hx
      revert s
      decide
  | _ => exact ⟨_, rfl⟩

/-- None of their strategies must always converge, so no entity stops them. -/
theorem exists_evaluate (ctx : Context) (he : e.descriptor.filePolicy = .skipAndWarn)
    (intake : Intake) (entities : List Entity) : ∃ c, evaluate ctx e intake entities = .ok c := by
  rw [evaluate_eq_ok_iff]
  intro entity _
  rcases eq_of_skipAndWarn he with rfl | rfl
  · exact Entity.summarize_ok_of_ne_abort (by decide) (by decide) _
  · exact Entity.summarize_ok_of_ne_abort (by decide) (by decide) _

/-- A run that skips files ends well exactly when its intake does. -/
theorem exists_collectFrom_iff {ctx : Context} (he : e.descriptor.filePolicy = .skipAndWarn)
    {items : List (Except Fault Record)} :
    (∃ c, collectFrom ctx e items = .ok c) ↔
      ∃ s, (Intake.start e).takeAll .skipAndWarn items = .ok s := by
  constructor
  · rintro ⟨c, hc⟩
    obtain ⟨intake, hintake, -⟩ := collectFrom_eq_ok hc
    rw [he] at hintake
    exact ⟨intake, hintake⟩
  · rintro ⟨intake, hintake⟩
    have hfresh := (Intake.fresh_of_takeAll hintake).trans (Extractor.fresh_ofDescriptor _)
    obtain ⟨entities, hentities⟩ := exists_collected he hfresh
    obtain ⟨c, hc⟩ := exists_evaluate ctx he intake entities
    refine ⟨c, ?_⟩
    unfold collectFrom
    rw [he, hintake]
    show (e.inContext intake.extractor.collected >>= _) = _
    rw [hentities]
    exact hc

/-- An intake that skips files ends well exactly when all of them are text. -/
theorem takeAll_ok_iff_text (e : Evaluation) (l : Loader) (files : List (String × Bytes)) :
    (∃ s, (Intake.start e).takeAll .skipAndWarn (files.map fun f => l.read f.1 f.2) = .ok s) ↔
      ∀ f ∈ files, (Bytes.text? f.2).isSome = true := by
  rw [Intake.takeAll_eq_ok_iff (s := Intake.start e) (.ofDescriptor e.descriptor) rfl,
    List.forall_mem_map]
  apply forall₂_congr
  intro f _
  constructor
  · intro h
    cases htext : Bytes.text? f.2 with
    | some text => rfl
    | none =>
      obtain ⟨fault, hfault, hlevel⟩ :=
        fault_of_not_text (x := .ofDescriptor e.descriptor) (l := l) htext
      rw [h fault hfault] at hlevel
      cases hlevel
  · intro htext fault h
    exact (fault_of_text htext h).level

/-- A run that skips files ends well exactly when every file it reads is text, and then every
file is counted or listed. -/
theorem ends_well_iff_all_text {ctx : Context} {e : Evaluation} {t : FileTree}
    (he : e.descriptor.filePolicy = .skipAndWarn)
    (hfolder : t.isFolderAt (ctx.resultFolder e) = true) :
    ((∃ c, collect ctx e t = .ok c) ↔
      ∀ f ∈ matchingFiles ctx e t, (Bytes.text? f.2).isSome = true) ∧
    ∀ c, collect ctx e t = .ok c → c.skippedFiles = rejectedFiles ctx e t ∧
      c.provenance.inputFiles + c.skippedFiles.length = (matchingFiles ctx e t).length := by
  obtain ⟨l, hl, -⟩ := exists_loader ctx e
  obtain ⟨folder, hfolder⟩ : ∃ folder, inputFolder? ctx e t = some folder := by
    obtain ⟨folder, hlocated, hisFolder⟩ := (Option.any_eq_true _ _).1 hfolder
    exact ⟨folder, Option.filter_eq_some_iff.2 ⟨hlocated, hisFolder⟩⟩
  have hcollect := collect_eq_collectFrom hl (records_eq hl hfolder)
  refine ⟨?_, ?_⟩
  · rw [hcollect, exists_collectFrom_iff he, takeAll_ok_iff_text]
  · intro c hc
    constructor
    · rw [collect_withoutRejected ctx t he] at hc
      obtain ⟨c', -, rfl⟩ := map_eq_ok hc
      rfl
    · rw [hcollect] at hc
      obtain ⟨intake, hintake, hskipped, hinput⟩ := collectFrom_eq_ok hc
      rw [he] at hintake
      have hcounts := Intake.counts_of_takeAll hintake
      rw [List.length_map] at hcounts
      rw [hskipped, hinput, hcounts]
      exact Nat.zero_add _

/-- A file that is no document, but text. -/
def textRun : FileTree := resultTree .errorRate [("bad.json", .ofText "?")]

theorem textRun_ends_well :
    ∃ c, collect freshContext .errorRate textRun = .ok c ∧
      c.skippedFiles = ["bad.json"] := by
  have hfolder : textRun.isFolderAt (freshContext.resultFolder .errorRate) = true := by
    decide +kernel
  have htext : ∀ f ∈ matchingFiles freshContext .errorRate textRun,
      (Bytes.text? f.2).isSome = true := by
    decide +kernel
  have hrejected : rejectedFiles freshContext .errorRate textRun = ["bad.json"] := by
    decide +kernel
  obtain ⟨hends, hlists⟩ := ends_well_iff_all_text rfl hfolder
  obtain ⟨c, hc⟩ := hends.2 htext
  exact ⟨c, hc, (hlists c hc).1.trans hrejected⟩

/-- A file of one byte that is no text. -/
def binaryRun : FileTree := resultTree .errorRate [("bad.json", [0xff])]

theorem stopped_by_binary :
    Evaluation.errorRate.descriptor.filePolicy = .skipAndWarn ∧
    binaryRun.isFolderAt (freshContext.resultFolder .errorRate) = true ∧
    ∃ fault, collect freshContext .errorRate binaryRun = .error fault ∧
      fault.family = .io := by
  refine ⟨rfl, by decide +kernel, ?_⟩
  have hrun : (match collect freshContext .errorRate binaryRun with
      | .ok _ => false
      | .error fault => decide (fault.family = .io)) = true := by
    decide +kernel
  cases hcollect : collect freshContext .errorRate binaryRun with
  | ok c =>
    rw [hcollect] at hrun
    cases hrun
  | error fault =>
    rw [hcollect] at hrun
    exact ⟨fault, rfl, of_decide_eq_true hrun⟩

end Text

end FigureData
