/-
  Runs that fail: the file tree changes only once all files are complete.

  The tree is refused by the file system alone, so the fault of a run tells whether anything was
  written.  Even then nothing has changed outside of the output folder.

  Proved:
  * `isOfInput_of_collect`: what can go wrong while a dataset is collected.
  * `prepare_eq_error_iff`: what is raised before a run writes comes from collecting or from
    laying out the files.
  * `failed_run_keeps_tree`: a run that fails before it writes leaves the tree as it is, and its
    fault tells so.
-/
import FigureData.Proofs.Run.MustConverge
import FigureData.Proofs.Run.Output

namespace FigureData

open Outcome

/-! ## Faults of the input -/

/-- Is a fault one of the results that are read: their folder is missing, a file is no text or
not as it should be, or a strategy has no result? -/
def Fault.isOfInput (fault : Fault) : Bool :=
  fault.isFileLevel || decide (fault.family = .undefinedResult) ||
    (decide (fault.family = .io) && ["result_dir_missing", "read"].contains fault.code)

/-- No fault of the input is a refusal to write. -/
theorem Fault.isRefusal_of_isOfInput {fault : Fault} (h : fault.isOfInput = true) :
    fault.isRefusal = false := by
  rw [Bool.eq_false_iff]
  intro hrefusal
  unfold isRefusal at hrefusal
  rw [Bool.and_eq_true, decide_eq_true_eq] at hrefusal
  obtain ⟨hfamily, hcode⟩ := hrefusal
  unfold isOfInput isFileLevel at h
  rw [hfamily] at h
  have hinput : ["result_dir_missing", "read"].contains fault.code = true := h
  rw [List.contains_iff_mem, List.mem_cons, List.mem_singleton] at hinput
  rcases hinput with hinput | hinput
  · rw [hinput] at hcode
    exact absurd hcode (by decide)
  · rw [hinput] at hcode
    exact absurd hcode (by decide)

theorem Fault.isOfInput_of_isFileLevel {fault : Fault} (h : fault.isFileLevel = true) :
    fault.isOfInput = true := by
  unfold isOfInput
  rw [h]
  rfl

/-! ## Collecting -/

section InContext

variable {α : Type} {e : Evaluation} {outcome : Except Fault α} {fault : Fault}

/-- The name of the evaluation does not change what kind of fault it is. -/
theorem isOfInput_of_inContext (h : e.inContext outcome = .error fault)
    (hall : ∀ reason, outcome = .error reason → reason.isOfInput = true) :
    fault.isOfInput = true := by
  cases outcome with
  | ok a => cases h
  | error reason =>
    cases h
    exact hall reason rfl

end InContext

/-- The fault that ends an intake is that of one of the files. -/
theorem Intake.takeAll_error {policy : FilePolicy} {s : Intake}
    {items : List (Except Fault Record)} {fault : Fault}
    (h : s.takeAll policy items = .error fault) :
    ∃ item ∈ items, ∃ x, faultOf? x item = some fault := by
  induction items generalizing s with
  | nil => cases h
  | cons item rest ih =>
    rw [takeAll_cons] at h
    rcases bind_eq_error h with h | ⟨next, -, h⟩
    · refine ⟨item, List.mem_cons_self .., s.extractor, faultOf?_eq_some_iff.2 ?_⟩
      cases hitem : item.bind s.extractor.ingest with
      | ok y =>
        rw [take_of_ok hitem] at h
        cases h
      | error reason =>
        rw [take_of_error hitem] at h
        split at h
        · cases h
        · rw [Except.error.inj h]
    · obtain ⟨found, hfound, hx⟩ := ih h
      exact ⟨found, List.mem_cons_of_mem _ hfound, hx⟩

/-- The fault of a file that is read is one of the input. -/
theorem isOfInput_of_file {x : Extractor} {l : Loader} {f : String × Bytes} {fault : Fault}
    (h : Intake.faultOf? x (l.read f.1 f.2) = some fault) : fault.isOfInput = true := by
  cases htext : Bytes.text? f.2 with
  | some text =>
    have htext : (Bytes.text? f.2).isSome = true := by
      rw [htext]
      rfl
    exact Fault.isOfInput_of_isFileLevel (fault_of_text htext h).level
  | none =>
    rw [Intake.faultOf?_eq_some_iff, Loader.read_of_not_text htext] at h
    cases h
    rfl

/-- An entity that lacks a file is a fault of that file. -/
theorem isOfInput_of_collected {x : Extractor} {fault : Fault} (h : x.collected = .error fault) :
    fault.isOfInput = true := by
  cases x with
  | strategies rules m =>
    have h : rules.complete m.values = .error fault := h
    unfold Extraction.StrategyRules.complete at h
    split at h
    next reason hreason =>
      cases h
      obtain ⟨entity, -, hmissing⟩ := List.exists_of_findSome?_eq_some hreason
      obtain ⟨s, -, hs⟩ := List.exists_of_findSome?_eq_some hmissing
      split at hs
      · split at hs
        · cases hs
        · cases hs
          rfl
      · cases hs
    next => cases h
  | _ => cases h

section Collect

variable {ctx : Context} {e : Evaluation} {t : FileTree} {fault : Fault}

/-- What goes wrong while a dataset is collected is wrong with the results that are read. -/
theorem isOfInput_of_collect (h : collect ctx e t = .error fault) : fault.isOfInput = true := by
  rw [collect_eq] at h
  rcases bind_eq_error h with h | ⟨⟨intake, entities⟩, -, h⟩
  swap
  · unfold Fault.isOfInput
    rw [family_of_evaluate h]
    simp
  obtain ⟨l, hl, -⟩ := exists_loader ctx e
  unfold takeIn at h
  rcases bind_eq_error h with h | ⟨l', hl', h⟩
  · rw [hl] at h
    cases h
  rw [hl] at hl'
  cases hl'
  rcases bind_eq_error h with h | ⟨items, hitems, h⟩
  · cases hfolder : inputFolder? ctx e t with
    | none =>
      rw [records_missing hl hfolder] at h
      cases h
      rfl
    | some folder =>
      rw [records_eq hl hfolder] at h
      cases h
  rcases bind_eq_error h with h | ⟨intake, -, h⟩
  · refine isOfInput_of_inContext h fun reason hreason => ?_
    obtain ⟨item, hitem, x, hx⟩ := Intake.takeAll_error hreason
    cases hfolder : inputFolder? ctx e t with
    | none =>
      rw [records_missing hl hfolder] at hitems
      cases hitems
    | some folder =>
      rw [records_eq hl hfolder] at hitems
      cases hitems
      obtain ⟨f, -, rfl⟩ := List.mem_map.1 hitem
      exact isOfInput_of_file hx
  rcases bind_eq_error h with h | ⟨entities, -, h⟩
  · exact isOfInput_of_inContext h fun reason hreason => isOfInput_of_collected hreason
  · cases h

end Collect

/-! ## Runs -/

/-- Has the file tree refused to be written? -/
def Stop.isRefusal : Stop → Bool
  | .fault reason => reason.isRefusal
  | .tooManyPlaces => false

/-- Collecting the dataset, or laying out its files, ends in this stop. -/
def RaisedBeforeWriting (ctx : Context) (e : Evaluation) (now : String) (t : FileTree)
    (stop : Stop) : Prop :=
  (∃ fault, collect ctx e t = .error fault ∧ stop = .fault fault) ∨
    ∃ c, collect ctx e t = .ok c ∧ c.dataset.bundle (optionsAt ctx e now c) = .error stop

section Run

variable {ctx : Context} {e : Evaluation} {now : String} {t t' : FileTree} {stop : Stop}

theorem prepare_eq_error_iff :
    prepare ctx e now t = .error stop ↔ RaisedBeforeWriting ctx e now t stop := by
  unfold prepare RaisedBeforeWriting
  cases hcollect : collect ctx e t with
  | error fault =>
    show Except.error (Stop.fault fault) = _ ↔ _
    simp [eq_comm]
  | ok c =>
    show (c.dataset.bundle (optionsAt ctx e now c) >>= _) = _ ↔ _
    cases hbundle : c.dataset.bundle (optionsAt ctx e now c) with
    | error reason =>
      show Except.error reason = _ ↔ _
      simp [hbundle]
    | ok b =>
      show Except.ok _ = _ ↔ _
      simp [hbundle]

/-- What is raised before a run writes is no refusal: files that are laid out for a run have a
cell for every column. -/
theorem isRefusal_of_raised (h : RaisedBeforeWriting ctx e now t stop) :
    stop.isRefusal = false := by
  rcases h with ⟨fault, hcollect, rfl⟩ | ⟨c, hcollect, hbundle⟩
  · exact Fault.isRefusal_of_isOfInput (isOfInput_of_collect hcollect)
  · obtain ⟨intake, entities, kept, -, hdataset, -⟩ := collect_eq_ok hcollect
    have hrows : ∀ row ∈ c.dataset.rows, row.cells.length = c.dataset.columns.length :=
      fun row hrow => Dataset.length_cells_of_ofDescriptor hdataset hrow
    rw [Dataset.bundle_error hrows hbundle]
    rfl

/-- A run that fails before it writes leaves the tree as it is, earlier output included.  If it
fails later the tree has refused to be written, which its fault tells, and nothing has changed
outside of the output folder. -/
theorem failed_run_keeps_tree (h : run ctx e now t = (t', .error stop)) :
    (RaisedBeforeWriting ctx e now t stop ∧ stop.isRefusal = false ∧ t' = t) ∨
      (¬ RaisedBeforeWriting ctx e now t stop ∧ stop.isRefusal = true ∧
        ∃ folder, inputFolder? ctx e t = some folder ∧ (t.PlainNames →
          ∀ l, ¬ outputLocation e folder <:+ l → t'.nodeAt? l = t.nodeAt? l)) := by
  cases hprepare : prepare ctx e now t with
  | error reason =>
    unfold run at h
    rw [hprepare] at h
    cases h
    have hraised := prepare_eq_error_iff.1 hprepare
    exact .inl ⟨hraised, isRefusal_of_raised hraised, rfl⟩
  | ok p =>
    right
    have hnot : ¬ RaisedBeforeWriting ctx e now t stop := by
      rw [← prepare_eq_error_iff, hprepare]
      simp
    obtain ⟨folder, hfolder⟩ := inputFolder?_of_collect (prepare_eq_ok hprepare).1
    unfold run at h
    rw [hprepare] at h
    cases hwrite : p.bundle.writeTo (ctx.outputFolder e) t with
    | mk t₁ written =>
      simp only [hwrite] at h
      cases written with
      | ok paths => cases h
      | error fault =>
        cases h
        refine ⟨hnot, Bundle.isRefusal_of_writeTo (congrArg Prod.snd hwrite), folder, hfolder, ?_⟩
        intro ht l hl
        obtain ⟨hname, hopen, hsize⟩ := outputFolder_isName e
        have houtside := Bundle.outside_of_writeTo (hasFolder_of_inputFolder? hfolder) hname hopen
          hsize (names_of_prepare ht hprepare).2 l hl
        rw [← houtside]
        exact congrArg (fun x => x.1.nodeAt? l) hwrite.symm

end Run

/-- Results on which the strategy under test failed, beside earlier output. -/
def keptRun : FileTree :=
  ((failedRun.makeFolder? "plot" ["result_6", "r"]).bind fun t =>
    t.writeFile? "data.csv" ["plot", "result_6", "r"] (.ofText "old")).getD ∅

theorem keptRun_kept :
    ∃ stop, run freshContext (.costComparison 6) "now" keptRun = (keptRun, .error stop) ∧
      RaisedBeforeWriting freshContext (.costComparison 6) "now" keptRun stop ∧
      keptRun.contentAt? ["data.csv", "plot", "result_6", "r"] = some (.ofText "old") := by
  have hrun : (match (run freshContext (.costComparison 6) "now" keptRun).2 with
      | .ok _ => false
      | .error stop => !stop.isRefusal) = true := by
    decide +kernel
  have hcontent : keptRun.contentAt? ["data.csv", "plot", "result_6", "r"] =
      some (.ofText "old") := by
    decide +kernel
  cases hresult : run freshContext (.costComparison 6) "now" keptRun with
  | mk t' outcome =>
    rw [hresult] at hrun
    cases outcome with
    | ok r => cases hrun
    | error stop =>
      rcases failed_run_keeps_tree hresult with ⟨hraised, -, rfl⟩ | ⟨-, hrefusal, -⟩
      · exact ⟨stop, rfl, hraised, hcontent⟩
      · have hrun : (!stop.isRefusal) = true := hrun
        rw [hrefusal] at hrun
        cases hrun

end FigureData
