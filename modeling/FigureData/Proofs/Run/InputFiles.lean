/-
  The files that an evaluation reads, and those that it refuses.

  A file is refused when loading it or extracting from it ends in a fault of that file.
  Such a fault names the file, and no file is refused for what another file holds.

  Proved:
  * `exists_selector`, `exists_loader`: every evaluation has a loader, and `inputItems_eq`: whose
    outcomes are those that the evaluation takes in.
  * `exists_pattern`: the name of a file that is read matches one of the patterns.
  * `fault_of_text`, `fault_of_not_text`: a file that is text is refused for its own sake
    or accepted; one that is not is a fault that reaches beyond it.
  * `rejectedNames_read`: the faults of the refused files name them.
  * `matchingFiles_withoutRejected`: the files of the tree without the refused ones.
-/
import FigureData.Proofs.Extraction.Faults
import FigureData.Proofs.FileTree.Removal
import FigureData.Proofs.Run.Stages

namespace FigureData

open Outcome

/-! ## Definitions -/

/-- The folder that an evaluation reads, where it is there. -/
def inputFolder? (ctx : Context) (e : Evaluation) (t : FileTree) : Option Location :=
  (t.locate? (ctx.resultFolder e)).filter t.isFolder

/-- Names and contents of the files that an evaluation reads, in ascending order of names. -/
def matchingFiles (ctx : Context) (e : Evaluation) (t : FileTree) : List (String × Bytes) :=
  match Loader.ofDescriptor (ctx.resultFolder e) e.descriptor, inputFolder? ctx e t with
  | .ok loader, some folder => loader.selectedFiles t folder
  | _, _ => []

/-- Does loading a file, or extracting from it, end in a fault of that file? -/
def refuses (ctx : Context) (e : Evaluation) (f : String × Bytes) : Bool :=
  match Loader.ofDescriptor (ctx.resultFolder e) e.descriptor with
  | .ok loader => Intake.isRejected (.ofDescriptor e.descriptor) (loader.read f.1 f.2)
  | .error _ => false

/-- Names of the files that are refused, in ascending order. -/
def rejectedFiles (ctx : Context) (e : Evaluation) (t : FileTree) : List String :=
  ((matchingFiles ctx e t).filter (refuses ctx e)).map Prod.fst

/-- The tree without the files that are refused. -/
def withoutRejected (ctx : Context) (e : Evaluation) (t : FileTree) : FileTree :=
  match inputFolder? ctx e t with
  | some folder => t.removeFiles folder (rejectedFiles ctx e t)
  | none => t

/-! ## Loaders -/

/-- The patterns of every evaluation can be read. -/
theorem exists_selector (e : Evaluation) : ∃ selector,
    FileSelector.make e.descriptor.filePatterns e.descriptor.reserved = .ok selector := by
  have hselector : (FileSelector.make e.descriptor.filePatterns
      e.descriptor.reserved).toOption.isSome = true := by
    cases e with
    | costComparison number =>
      show (FileSelector.make ["*.json"] ["plot", "table"]).toOption.isSome = true
      decide +kernel
    | _ => decide +kernel
  cases hmake : FileSelector.make e.descriptor.filePatterns e.descriptor.reserved with
  | ok selector => exact ⟨selector, rfl⟩
  | error fault =>
    rw [hmake] at hselector
    cases hselector

theorem exists_loader (ctx : Context) (e : Evaluation) :
    ∃ l, Loader.ofDescriptor (ctx.resultFolder e) e.descriptor = .ok l ∧
      l.folder = ctx.resultFolder e := by
  obtain ⟨selector, hselector⟩ := exists_selector e
  unfold Loader.ofDescriptor
  rw [hselector]
  exact ⟨_, rfl, rfl⟩

/-- A selector goes by the patterns it was made of. -/
theorem FileSelector.patterns_of_make {patterns reserved : List String} {selector : FileSelector}
    (h : FileSelector.make patterns reserved = .ok selector) :
    FileSelector.readPatterns patterns = .ok selector.patterns := by
  unfold FileSelector.make at h
  obtain ⟨tokens, htokens, h⟩ := bind_eq_ok h
  split at h
  · cases h
  · cases h
    exact htokens

/-- The name of a file that is read matches one of the patterns. -/
theorem exists_pattern {ctx : Context} {e : Evaluation} {t : FileTree} {f : String × Bytes}
    (hf : f ∈ matchingFiles ctx e t) :
    ∃ patterns tokens, FileSelector.readPatterns e.descriptor.filePatterns = .ok patterns ∧
      tokens ∈ patterns ∧ Glob.matchesName tokens f.1 = true := by
  unfold matchingFiles at hf
  split at hf
  next loader folder hl _ =>
    unfold Loader.ofDescriptor at hl
    obtain ⟨selector, hselector, rfl⟩ := map_eq_ok hl
    have haccepts := (List.mem_filter.1 hf).2
    unfold FileSelector.accepts at haccepts
    rw [Bool.and_eq_true, List.any_eq_true] at haccepts
    obtain ⟨-, tokens, htokens, hmatches⟩ := haccepts
    exact ⟨_, tokens, FileSelector.patterns_of_make hselector, htokens, hmatches⟩
  next => cases hf

section Loader

variable {ctx : Context} {e : Evaluation} {t : FileTree} {l : Loader}
  (hl : Loader.ofDescriptor (ctx.resultFolder e) e.descriptor = .ok l)

include hl

theorem folder_of_ofDescriptor : l.folder = ctx.resultFolder e := by
  obtain ⟨l', hl', hfolder⟩ := exists_loader ctx e
  rw [hl] at hl'
  cases hl'
  exact hfolder

theorem refuses_eq (f : String × Bytes) :
    refuses ctx e f = Intake.isRejected (.ofDescriptor e.descriptor) (l.read f.1 f.2) := by
  unfold refuses
  rw [hl]

/-- Where the folder is there, every file in it that is selected has an outcome. -/
theorem records_eq {folder : Location} (hfolder : inputFolder? ctx e t = some folder) :
    l.records t = .ok ((matchingFiles ctx e t).map fun f => l.read f.1 f.2) := by
  have hlocated : (t.locate? l.folder).filter t.isFolder = some folder := by
    rw [folder_of_ofDescriptor hl]
    exact hfolder
  unfold Loader.records matchingFiles
  rw [hlocated, hl, hfolder]

theorem records_missing (hfolder : inputFolder? ctx e t = none) :
    l.records t = .error (.missingFolder l.folder) := by
  have hlocated : (t.locate? l.folder).filter t.isFolder = none := by
    rw [folder_of_ofDescriptor hl]
    exact hfolder
  unfold Loader.records
  rw [hlocated]

/-- The outcomes of the files that an evaluation reads are those of its loader. -/
theorem inputItems_eq :
    inputItems ctx e t = (matchingFiles ctx e t).map fun f => l.read f.1 f.2 := by
  have hrecords : (Loader.ofDescriptor (ctx.resultFolder e) e.descriptor >>= fun l => l.records t) =
      l.records t := by
    rw [hl]
    rfl
  unfold inputItems
  rw [hrecords]
  cases hfolder : inputFolder? ctx e t with
  | some folder => rw [records_eq hl hfolder]
  | none =>
    rw [records_missing hl hfolder]
    unfold matchingFiles
    rw [hl, hfolder]
    rfl

end Loader

/-! ## Verdicts on files -/

section Verdict

variable {x : Extractor} {l : Loader} {f : String × Bytes} {fault : Fault}

/-- A file that is text is accepted or refused for its own sake. -/
theorem fault_of_text (htext : (Bytes.text? f.2).isSome = true)
    (h : Intake.faultOf? x (l.read f.1 f.2) = some fault) : fault.IsOfFile f.1 := by
  obtain ⟨text, htext⟩ := Option.isSome_iff_exists.1 htext
  obtain ⟨hnames, hname⟩ := l.read_of_text f.1 htext
  rcases bind_eq_error (Intake.faultOf?_eq_some_iff.1 h) with h | ⟨r, hr, h⟩
  · exact hnames fault h
  · rw [← hname r hr]
    exact x.namesFile_ingest r fault h

/-- A file that is not text is a fault that reaches beyond it. -/
theorem fault_of_not_text (htext : Bytes.text? f.2 = none) :
    ∃ fault, Intake.faultOf? x (l.read f.1 f.2) = some fault ∧ fault.isFileLevel = false := by
  refine ⟨.notText (Path.join l.folder f.1), Intake.faultOf?_eq_some_iff.2 ?_, rfl⟩
  rw [Loader.read_of_not_text htext]
  rfl

/-- The faults of the refused files name them. -/
theorem rejectedNames_read (x : Extractor) (l : Loader) (files : List (String × Bytes)) :
    Intake.rejectedNames x (files.map fun f => l.read f.1 f.2) =
      (files.filter fun f => Intake.isRejected x (l.read f.1 f.2)).map Prod.fst := by
  unfold Intake.rejectedNames
  rw [List.filter_map, List.filterMap_map, ← List.filterMap_eq_map]
  apply List.filterMap_congr
  intro f hf
  have hrejected : Intake.isRejected x (l.read f.1 f.2) = true := (List.mem_filter.1 hf).2
  obtain ⟨fault, hfault, hlevel⟩ := (Option.any_eq_true _ _).1 hrejected
  have hname : fault.IsOfFile f.1 := by
    cases htext : Bytes.text? f.2 with
    | some text => exact fault_of_text (by rw [htext]; rfl) hfault
    | none =>
      obtain ⟨fault', hfault', hlevel'⟩ := fault_of_not_text (x := x) (l := l) htext
      rw [hfault] at hfault'
      cases hfault'
      rw [hlevel] at hlevel'
      cases hlevel'
  show ((Intake.faultOf? x (l.read f.1 f.2)).map Intake.faultyFile) = some f.1
  rw [hfault]
  show some ((fault.context.find? "file").getD "") = some f.1
  rw [hname.name]
  rfl

end Verdict

/-! ## Trees without the refused files -/

section Removal

variable {ctx : Context} {e : Evaluation} {t : FileTree}

theorem matchingFiles_sorted : (matchingFiles ctx e t).Pairwise fun a b => a.1 < b.1 := by
  unfold matchingFiles
  split
  · exact (t.filesIn_sorted _).filter _
  · exact List.Pairwise.nil

/-- Refused files are listed in ascending order of their names. -/
theorem rejectedFiles_sorted : (rejectedFiles ctx e t).Pairwise (· < ·) := by
  unfold rejectedFiles
  rw [List.pairwise_map]
  exact matchingFiles_sorted.filter _

theorem isFolder_of_mem_rejectedFiles {folder : Location}
    (hfolder : inputFolder? ctx e t = some folder) :
    ∀ name ∈ rejectedFiles ctx e t, t.isFolder (name :: folder) = false := by
  obtain ⟨l, hl, -⟩ := exists_loader ctx e
  intro name hname
  obtain ⟨f, hf, rfl⟩ := List.mem_map.1 hname
  have hmatching := List.mem_of_mem_filter hf
  unfold matchingFiles at hmatching
  rw [hl, hfolder] at hmatching
  exact FileTree.isFolder_of_mem_filesIn (List.mem_of_mem_filter hmatching)

/-- The name of a file tells whether it is refused. -/
theorem mem_rejectedFiles_iff {f : String × Bytes} (hf : f ∈ matchingFiles ctx e t) :
    f.1 ∈ rejectedFiles ctx e t ↔ refuses ctx e f = true := by
  constructor
  · intro h
    obtain ⟨g, hg, hname⟩ := List.mem_map.1 h
    obtain ⟨hg, hrefused⟩ := List.mem_filter.1 hg
    have hnodup : (matchingFiles ctx e t).Pairwise fun a b => a.1 ≠ b.1 :=
      matchingFiles_sorted.imp String.ne_of_lt
    have hsame : g = f := List.inj_on_of_nodup_map (List.pairwise_map.2 hnodup) hg hf hname
    rw [← hsame]
    exact hrefused
  · intro h
    exact List.mem_map.2 ⟨f, List.mem_filter.2 ⟨hf, h⟩, rfl⟩

theorem withoutRejected_eq {folder : Location} (hfolder : inputFolder? ctx e t = some folder) :
    withoutRejected ctx e t = t.removeFiles folder (rejectedFiles ctx e t) := by
  unfold withoutRejected
  rw [hfolder]

/-- The folder stays where it is. -/
theorem inputFolder?_withoutRejected :
    inputFolder? ctx e (withoutRejected ctx e t) = inputFolder? ctx e t := by
  cases hfolder : inputFolder? ctx e t with
  | none =>
    unfold withoutRejected
    rw [hfolder]
    exact hfolder
  | some folder =>
    obtain ⟨hfolders, -⟩ := FileTree.removeFiles_spec (isFolder_of_mem_rejectedFiles hfolder)
    rw [withoutRejected_eq hfolder, ← hfolder]
    unfold inputFolder?
    rw [FileTree.locate?_congr hfolders, funext hfolders]

/-- Of the files that are read, the refused ones are gone. -/
theorem matchingFiles_withoutRejected :
    matchingFiles ctx e (withoutRejected ctx e t) =
      (matchingFiles ctx e t).filter fun f => !refuses ctx e f := by
  obtain ⟨l, hl, -⟩ := exists_loader ctx e
  have hsame : ∀ f ∈ matchingFiles ctx e t,
      decide (f.1 ∉ rejectedFiles ctx e t) = !refuses ctx e f := by
    intro f hf
    rw [Bool.eq_iff_iff, decide_eq_true_eq, Bool.not_eq_true', mem_rejectedFiles_iff hf,
      Bool.not_eq_true]
  rw [← List.filter_congr hsame]
  cases hfolder : inputFolder? ctx e t with
  | none =>
    unfold matchingFiles
    rw [inputFolder?_withoutRejected, hfolder, hl]
    rfl
  | some folder =>
    obtain ⟨-, hfiles⟩ := FileTree.removeFiles_spec (isFolder_of_mem_rejectedFiles hfolder)
    have hmatching : ∀ t', inputFolder? ctx e t' = some folder →
        matchingFiles ctx e t' = l.selectedFiles t' folder := by
      intro t' h
      unfold matchingFiles
      rw [hl, h]
    rw [hmatching _ (inputFolder?_withoutRejected.trans hfolder), withoutRejected_eq hfolder]
    unfold Loader.selectedFiles
    rw [hfiles, hmatching t hfolder]
    unfold Loader.selectedFiles
    rw [List.filter_filter, List.filter_filter]
    apply List.filter_congr
    intro f _
    exact Bool.and_comm _ _

end Removal

end FigureData
