/-
  Running an evaluation twice.

  The output is written into the very folder that is read, but as a folder of its own, of which
  no file is read.  So a second run collects the same dataset and writes the same files, apart
  from the time that is recorded in the summary.

  Proved:
  * `collect_congr`: a dataset depends on the files of the folder that is read alone.
  * `collect_of_written`: after a run the same dataset is collected.
  * `nodeAt?_written_again`: of two bundles written one after the other the second is left.
  * `run_twice`: a second run reports the same and changes the summary alone.
-/
import FigureData.Proofs.Run.Output
import FigureData.Proofs.Run.Skipping

namespace FigureData

open Outcome

/-! ## Collecting again -/

section Collect

variable {ctx : Context} {e : Evaluation} {t t' : FileTree}

/-- A dataset depends on the files of the folder that is read alone. -/
theorem collect_congr (hfolder : inputFolder? ctx e t' = inputFolder? ctx e t)
    (hfiles : ∀ folder, inputFolder? ctx e t = some folder → t'.filesIn folder = t.filesIn folder) :
    collect ctx e t' = collect ctx e t := by
  obtain ⟨l, hl, -⟩ := exists_loader ctx e
  have hrecords : l.records t' = l.records t := by
    cases hinput : inputFolder? ctx e t with
    | none => rw [records_missing hl (hfolder.trans hinput), records_missing hl hinput]
    | some folder =>
      rw [records_eq hl (hfolder.trans hinput), records_eq hl hinput]
      unfold matchingFiles Loader.selectedFiles
      simp only [hl, hfolder.trans hinput, hinput, hfiles folder hinput]
  rw [collect_eq, collect_eq]
  unfold takeIn
  rw [hl]
  show (l.records t' >>= _) >>= _ = (l.records t >>= _) >>= _
  rw [hrecords]

/-- After a run the same dataset is collected. -/
theorem collect_of_written {p : Prepared} {folder : Location} {paths : List String}
    (h : p.Written ctx e t t' folder paths) : collect ctx e t' = collect ctx e t := by
  obtain ⟨hbase, houtput⟩ := h.hasFolder
  have hinput : inputFolder? ctx e t' = some folder := by
    obtain ⟨hlocate, -⟩ := Option.filter_eq_some_iff.1 h.input
    obtain ⟨hempty, husable, -⟩ := FileTree.locate?_eq_some_iff.1 hlocate
    refine Option.filter_eq_some_iff.2 ⟨?_, hbase.isFolder⟩
    exact FileTree.locate?_eq_some_iff.2 ⟨hempty, husable, hbase.walk⟩
  refine collect_congr (hinput.trans h.input.symm) fun folder' hfolder => ?_
  rw [h.input, Option.some.injEq] at hfolder
  subst hfolder
  refine FileTree.filesIn_congr fun name content => ?_
  by_cases hname : name :: folder = outputLocation e folder
  · rw [hname, FileTree.isFolder_iff.1 houtput.isFolder]
    constructor
    · intro hnode
      cases hnode
    · intro hnode
      exact absurd hnode (h.notFile content)
  · have houtside : ¬ outputLocation e folder <:+ name :: folder := by
      unfold outputLocation
      rw [List.suffix_cons_iff]
      rintro (he | hs)
      · exact hname he.symm
      · have hlength := hs.length_le
        rw [List.length_cons] at hlength
        omega
    rw [h.replaced.outside _ houtside]

end Collect

/-! ## Writing again -/

/-- The summary with another time. -/
def ScalarSummary.at (s : ScalarSummary) (now : String) : ScalarSummary :=
  { s with provenance := { s.provenance with createdAt := now } }

/-- The bundle with another time in its summary. -/
def Bundle.at (b : Bundle) (now : String) : Bundle := { b with summary := b.summary.at now }

theorem Bundle.names_at (b : Bundle) (now : String) :
    (b.at now).files.map Prod.fst = b.files.map Prod.fst := by
  unfold files
  simp only [List.map_cons]
  rfl

/-- What depends on the names of files alone. -/
theorem Bundle.forall_files_at {b : Bundle} {P : String → Prop} (now : String)
    (h : ∀ f ∈ b.files, P f.1) : ∀ f ∈ (b.at now).files, P f.1 := by
  rw [← List.forall_mem_map (f := Prod.fst), b.names_at now, List.forall_mem_map]
  exact h

section Rerun

variable {ctx : Context} {e : Evaluation} {now later : String} {t t' : FileTree} {p : Prepared}

/-- At another time the same files are prepared, apart from the summary. -/
theorem prepare_at (h : prepare ctx e now t = .ok p)
    (hcollect : collect ctx e t' = collect ctx e t) :
    prepare ctx e later t' = .ok ⟨p.collected, p.bundle.at later⟩ := by
  obtain ⟨hc, hb⟩ := prepare_eq_ok h
  have hlater := Dataset.bundle_withProvenance hb { p.collected.provenance with createdAt := later }
  obtain ⟨-, hsummary, -⟩ := Dataset.bundle_fields hb
  unfold prepare
  rw [hcollect, hc]
  show (p.collected.dataset.bundle (optionsAt ctx e later p.collected) >>= _) = _
  rw [show optionsAt ctx e later p.collected = { optionsAt ctx e now p.collected with
    provenance := { p.collected.provenance with createdAt := later } } from rfl, hlater]
  unfold Bundle.at
  rw [hsummary]
  rfl

/-- What has been written once can be written again at another time, into the same folder. -/
theorem written_again (later : String) {folder : Location} {paths : List String}
    (h : p.Written ctx e t t' folder paths) :
    ∃ t₂, (p.bundle.at later).writeTo (ctx.outputFolder e) t' = (t₂, .ok paths) ∧
      t'.Replaced t₂ (ctx.outputFolder e) (outputLocation e folder) (p.bundle.at later).files := by
  obtain ⟨hbase, houtput⟩ := h.hasFolder
  obtain ⟨hname, hopen, hsize⟩ := outputFolder_isName e
  have hfiles : ∀ f ∈ (p.bundle.at later).files, Path.isName f.1 = true :=
    Bundle.forall_files_at (P := fun name => Path.isName name = true) later h.isName
  have hnotFile : ∀ content, t'.nodeAt? (outputLocation e folder) ≠ some (.file content) := by
    intro content hnode
    rw [FileTree.isFolder_iff.1 houtput.isFolder] at hnode
    cases hnode
  have hpaths : paths =
      (p.bundle.at later).files.map (fun f => Path.join (ctx.outputFolder e) f.1) := by
    have hnames := congrArg (List.map (Path.join (ctx.outputFolder e))) (p.bundle.names_at later)
    rw [List.map_map, List.map_map] at hnames
    exact h.paths.trans hnames.symm
  have hnodup : ((p.bundle.at later).files.map Prod.fst).Nodup := by
    rw [p.bundle.names_at later]
    exact h.distinct
  have hok : ((p.bundle.at later).writeTo (ctx.outputFolder e) t').2 = .ok paths := by
    refine (Bundle.writeTo_ok_iff hbase hname hopen hsize hfiles).2
      ⟨hpaths, h.canEnter, hnotFile, fun f hf => ⟨?_, ?_⟩⟩
    · exact Bundle.forall_files_at
        (P := fun name => FileTree.canName (ctx.outputFolder e) name = true) later h.canName f hf
    · exact Bundle.forall_files_at
        (P := fun name => name :: outputLocation e folder ∉ Path.visited (ctx.outputFolder e))
        later h.free f hf
  refine ⟨_, Prod.ext rfl hok, ?_⟩
  exact Bundle.replaced_of_writeTo hbase hname hopen hsize hfiles hnodup hok

/-- Of two bundles written one after the other the second is left, which differs in the summary
alone. -/
theorem nodeAt?_written_again {t₂ : FileTree} {path : String} {folder : Location} {b : Bundle}
    (h : t.Replaced t' path folder b.files)
    (hagain : t'.Replaced t₂ path folder (b.at later).files) (l : Location) :
    t₂.nodeAt? l =
      if l = summaryFile :: folder then some (.file (b.at later).summaryBytes)
      else t'.nodeAt? l := by
  by_cases hsuffix : folder <:+ l
  swap
  · rw [hagain.outside l hsuffix, if_neg ?_]
    rintro rfl
    exact hsuffix (List.suffix_cons _ _)
  split
  next hl =>
    subst hl
    exact hagain.contents (summaryFile, (b.at later).summaryBytes) (by simp [Bundle.files])
  next hl =>
    by_cases hfile : ∃ f ∈ b.files, l = f.1 :: folder
    · obtain ⟨f, hf, rfl⟩ := hfile
      have hother : f ∈ (b.at later).files := by
        unfold Bundle.files at hf ⊢
        rw [List.mem_cons, List.mem_cons] at hf ⊢
        refine hf.imp_right (Or.imp_left ?_)
        rintro rfl
        exact absurd rfl hl
      rw [hagain.contents f hother, h.contents f hf]
    · have hnone : ∀ f ∈ b.files, l ≠ f.1 :: folder := by simpa using hfile
      rw [hagain.beside l hsuffix
        (Bundle.forall_files_at (P := fun name => l ≠ name :: folder) later hnone),
        h.beside l hsuffix hnone]

/-- A second run ends well, reports the same paths, skipped files and networks left out, and the
same summary but for the time; of the tree it changes nothing but that time in the file with the
summary. -/
theorem run_twice (later : String) {r : RunReport} (ht : t.PlainNames)
    (h : run ctx e now t = (t', .ok r)) :
    ∃ t₂ folder, t'.locate? r.outputFolder = some folder ∧
      run ctx e later t' = (t₂, .ok { r with summary := r.summary.at later }) ∧
      t'.nodeAt? (summaryFile :: folder) =
        some (.file (Bytes.ofText r.summary.encode.toJson.canonical)) ∧
      ∀ l, t₂.nodeAt? l =
        if l = summaryFile :: folder then
          some (.file (Bytes.ofText (r.summary.at later).encode.toJson.canonical))
        else t'.nodeAt? l := by
  obtain ⟨p, paths, hprepare, hwrite, rfl⟩ := run_eq_ok h
  obtain ⟨folder, hwritten⟩ := written_of_writeTo ht hprepare hwrite
  obtain ⟨hbase, -⟩ := hwritten.hasFolder
  obtain ⟨t₂, hagain, hreplaced⟩ := written_again later hwritten
  refine ⟨t₂, outputLocation e folder, ?_, ?_, ?_, ?_⟩
  · exact (hbase.locate?_join (outputFolder_isName e).1).trans (if_pos hwritten.canEnter)
  · unfold run
    rw [prepare_at hprepare (collect_of_written hwritten)]
    simp only [hagain]
    rfl
  · exact hwritten.replaced.contents (summaryFile, p.bundle.summaryBytes)
      (by simp [Bundle.files])
  · exact nodeAt?_written_again hwritten.replaced hreplaced

end Rerun

/-- The evaluation that reads files of any name, on one that it skips. -/
theorem textRun_twice :
    ∃ t' t₂ r, run freshContext .errorRate "now" textRun = (t', .ok r) ∧
      r.skippedFiles = ["bad.json"] ∧
      run freshContext .errorRate "later" t' =
        (t₂, .ok { r with summary := r.summary.at "later" }) := by
  have hrun : (run freshContext .errorRate "now" textRun).2.toOption.any
      (fun r => r.skippedFiles = ["bad.json"]) = true := by
    decide +kernel
  have hplain : textRun.PlainNames := by decide +kernel
  obtain ⟨r, hr, hskipped⟩ := exists_run hrun
  obtain ⟨t₂, folder, -, hagain, -⟩ := run_twice "later" hplain hr
  exact ⟨_, t₂, r, hr, of_decide_eq_true hskipped, hagain⟩

end FigureData
