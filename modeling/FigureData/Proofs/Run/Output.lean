/-
  What a run does to the file tree: its output folder is replaced, and nothing else.

  The output folder lies in the folder that was read, which is there once files have been taken
  in.  The names of the side files rest on the rows of the cost figure having distinct identifiers.

  Proved:
  * `inputFolder?_of_collect`: the folder of the results is there after collecting.
  * `names_of_prepare`: names of the files, which differ from each other.
  * `run_replaces_output`: a run replaces its output folder by its files, and leaves nothing else
    in it exactly when the path to it does not lead through its inside.
  * `emptied_folder_stays`: a path that does.
-/
import FigureData.Proofs.Export.Files
import FigureData.Proofs.Export.Output
import FigureData.Proofs.Run.Boxes
import FigureData.Run.Report

namespace FigureData

open Outcome

/-! ## Paths -/

theorem endsOpen_folder (e : Evaluation) : Path.endsOpen e.folder = true := by
  have hnumber : ∀ n < 256, Path.endsOpen ("result_" ++ toString n) = true := by decide +kernel
  exact hnumber e.number.toNat e.number.toNat_lt

theorem endsOpen_resultFolder (ctx : Context) (e : Evaluation) :
    Path.endsOpen (ctx.resultFolder e) = true := by
  unfold Context.resultFolder
  split
  · exact Path.endsOpen_join _ (endsOpen_folder e)
  · exact Path.endsOpen_join _ (endsOpen_folder e)

theorem outputFolder_cases (e : Evaluation) :
    e.descriptor.outputFolder = "plot" ∨ e.descriptor.outputFolder = "table" := by
  cases e with
  | classification => exact .inr rfl
  | packetLoss => exact .inr rfl
  | _ => exact .inl rfl

theorem outputFolder_isName (e : Evaluation) :
    Path.isName e.descriptor.outputFolder = true ∧
      Path.endsOpen e.descriptor.outputFolder = true ∧
      e.descriptor.outputFolder.utf8ByteSize ≤ Path.maxNameBytes := by
  rcases outputFolder_cases e with h | h
  · rw [h]
    decide
  · rw [h]
    decide

/-- The location of the output folder, beside the files that are read. -/
def outputLocation (e : Evaluation) (folder : Location) : Location :=
  e.descriptor.outputFolder :: folder

section Paths

variable {ctx : Context} {e : Evaluation} {t : FileTree}

theorem hasFolder_of_inputFolder? {folder : Location} (h : inputFolder? ctx e t = some folder) :
    t.HasFolder (ctx.resultFolder e) folder := by
  obtain ⟨hlocate, hfolder⟩ := Option.filter_eq_some_iff.1 h
  exact ⟨endsOpen_resultFolder ctx e, (FileTree.locate?_eq_some_iff.1 hlocate).2.2, hfolder⟩

/-- What was collected was read from a folder of the tree. -/
theorem inputFolder?_of_collect {c : Collected} (h : collect ctx e t = .ok c) :
    ∃ folder, inputFolder? ctx e t = some folder := by
  rw [collect_eq] at h
  obtain ⟨⟨intake, entities⟩, htake, -⟩ := bind_eq_ok h
  unfold takeIn at htake
  obtain ⟨l, hl, htake⟩ := bind_eq_ok htake
  obtain ⟨items, hitems, -⟩ := bind_eq_ok htake
  cases hfolder : inputFolder? ctx e t with
  | some folder => exact ⟨folder, rfl⟩
  | none =>
    rw [records_missing hl hfolder] at hitems
    cases hitems

end Paths

/-! ## Files -/

/-- Names of the files of an evaluation whose rows have these identifiers. -/
def outputNames (e : Evaluation) (ids : List String) : List String :=
  e.descriptor.dataFile :: summaryFile ::
    if e = .costBoxplot then ids.map (· ++ "_fliers.csv") else []

/-- How the dataset of a run is written at a time. -/
def optionsAt (ctx : Context) (e : Evaluation) (now : String) (c : Collected) : ExportOptions :=
  .ofForm ctx.output e.descriptor.dataFile { c.provenance with createdAt := now }

section Files

variable {ctx : Context} {e : Evaluation} {now : String} {t : FileTree} {p : Prepared}

theorem prepare_eq_ok (h : prepare ctx e now t = .ok p) :
    collect ctx e t = .ok p.collected ∧
      p.collected.dataset.bundle (optionsAt ctx e now p.collected) = .ok p.bundle := by
  unfold prepare at h
  obtain ⟨c, hc, h⟩ := bind_eq_ok h
  obtain ⟨b, hb, h⟩ := bind_eq_ok h
  cases h
  refine ⟨?_, hb⟩
  cases hcollect : collect ctx e t with
  | ok c' =>
    rw [hcollect] at hc
    cases hc
    rfl
  | error fault =>
    rw [hcollect] at hc
    cases hc

/-- The files of a run have the names of its evaluation. -/
theorem map_fst_files (h : prepare ctx e now t = .ok p) :
    p.bundle.files.map Prod.fst = outputNames e (p.collected.dataset.rows.map Row.id) := by
  obtain ⟨hcollect, hbundle⟩ := prepare_eq_ok h
  obtain ⟨intake, entities, kept, -, hdataset, -⟩ := collect_eq_ok hcollect
  obtain ⟨hdata, -, hattachments⟩ := Dataset.bundle_fields hbundle
  have hside := Dataset.fileNames_ofDescriptor hdataset
  unfold Bundle.files outputNames
  rw [List.map_cons, List.map_cons, hattachments, hside, hdata]
  cases e with
  | costBoxplot =>
    show _ :: _ :: List.map (fun row : Row => row.id ++ "_fliers.csv") _ = _
    rw [if_pos rfl, List.map_map]
    rfl
  | _ => rfl

/-- A file that is read has a plain name. -/
theorem plain_of_matching (ht : t.PlainNames) {f : String × Bytes}
    (hf : f ∈ matchingFiles ctx e t) : '/' ∉ f.1.toList := by
  unfold matchingFiles at hf
  split at hf
  · exact ht _ _ _ (FileTree.mem_filesIn_iff.1 (List.mem_of_mem_filter hf))
  · cases hf

/-- An identifier continued by the suffix of the side files. -/
theorem isName_flierFile {id : String} (h : '/' ∉ id.toList) :
    Path.isName (id ++ "_fliers.csv") = true := by
  have hlong : ∀ text : String, text.toList.length < 11 → id ++ "_fliers.csv" ≠ text := by
    intro text htext he
    have hlength := congrArg (fun s => s.toList.length) he
    simp only [String.toList_append, List.length_append] at hlength
    have hsuffix : "_fliers.csv".toList.length = 11 := rfl
    omega
  rw [Path.isName_iff, String.toList_append, List.mem_append, not_or]
  refine ⟨⟨h, by decide⟩, ?_, hlong ".." (by decide)⟩
  unfold Path.isIdle
  rw [decide_eq_false (hlong "" (by decide)), decide_eq_false (hlong "." (by decide))]
  rfl

theorem flierFile_injective {a b : String} (h : a ++ "_fliers.csv" = b ++ "_fliers.csv") :
    a = b := by
  have hcs := congrArg String.toList h
  rw [String.toList_append, String.toList_append] at hcs
  exact String.toList_inj.1 (List.append_cancel_right hcs)

theorem dataFile_cases (e : Evaluation) :
    e.descriptor.dataFile = "data.csv" ∨ e.descriptor.dataFile = "table.csv" := by
  cases e with
  | classification => exact .inr rfl
  | packetLoss => exact .inr rfl
  | _ => exact .inl rfl

/-- Side files of distinct rows have distinct names, none of them that of another file. -/
theorem nodup_outputNames (e : Evaluation) {ids : List String}
    (h : e = .costBoxplot → ids.Nodup) : (outputNames e ids).Nodup := by
  have hdata : e.descriptor.dataFile ≠ summaryFile ∧
      ¬ "_fliers.csv".toList <:+ e.descriptor.dataFile.toList := by
    rcases dataFile_cases e with h | h
    · rw [h]
      decide
    · rw [h]
      decide
  have hside : ∀ text : String, ¬ "_fliers.csv".toList <:+ text.toList →
      text ∉ ids.map (· ++ "_fliers.csv") := by
    intro text htext hmem
    obtain ⟨id, -, rfl⟩ := List.mem_map.1 hmem
    refine htext ?_
    rw [String.toList_append]
    exact List.suffix_append _ _
  unfold outputNames
  split
  next he =>
    rw [List.nodup_cons, List.nodup_cons, List.mem_cons, not_or]
    refine ⟨⟨hdata.1, hside _ hdata.2⟩, hside _ (by decide), ?_⟩
    exact (h he).map fun a b hab => flierFile_injective hab
  next => simpa using hdata.1

/-- The names of the files are names where the identifiers have no slashes. -/
theorem isName_outputNames (e : Evaluation) (ids : List String)
    (h : e = .costBoxplot → ∀ id ∈ ids, '/' ∉ id.toList) :
    ∀ name ∈ outputNames e ids, Path.isName name = true := by
  have hdata : Path.isName e.descriptor.dataFile = true := by
    rcases dataFile_cases e with h | h
    · rw [h]
      decide
    · rw [h]
      decide
  unfold outputNames
  rw [List.forall_mem_cons, List.forall_mem_cons]
  refine ⟨hdata, by decide, ?_⟩
  split
  next he =>
    rw [List.forall_mem_map]
    intro id hid
    exact isName_flierFile (h he id hid)
  next => simp

/-- The identifiers of the cost figure are the stems of the files read, so a run writes files of
distinct names. -/
theorem names_of_prepare (ht : t.PlainNames) (h : prepare ctx e now t = .ok p) :
    (p.bundle.files.map Prod.fst).Nodup ∧ ∀ f ∈ p.bundle.files, Path.isName f.1 = true := by
  have hnames := map_fst_files h
  obtain ⟨hcollect, -⟩ := prepare_eq_ok h
  constructor
  · rw [hnames]
    refine nodup_outputNames e ?_
    rintro rfl
    exact (ids_of_collect hcollect).2.2.2.1
  · intro f hf
    refine isName_outputNames e (p.collected.dataset.rows.map Row.id) ?_ f.1 ?_
    · rintro rfl id hid
      obtain ⟨-, -, -, -, hids⟩ := ids_of_collect hcollect
      obtain ⟨file, hfile, rfl⟩ := List.mem_map.1 ((hids id).1 hid)
      intro hslash
      unfold fileStem Text.upTo at hslash
      rw [String.toList_ofList] at hslash
      exact plain_of_matching ht hfile ((List.takeWhile_sublist _).subset hslash)
    · rw [← hnames]
      exact List.mem_map_of_mem hf

end Files

/-! ## Runs -/

section Run

variable {ctx : Context} {e : Evaluation} {now : String} {t t' : FileTree} {r : RunReport}

/-- A run that ends well has prepared its files and written them. -/
theorem run_eq_ok (h : run ctx e now t = (t', .ok r)) :
    ∃ p paths, prepare ctx e now t = .ok p ∧
      p.bundle.writeTo (ctx.outputFolder e) t = (t', .ok paths) ∧ r = p.report ctx e paths := by
  unfold run at h
  cases hprepare : prepare ctx e now t with
  | error stop =>
    rw [hprepare] at h
    cases h
  | ok p =>
    rw [hprepare] at h
    cases hwrite : p.bundle.writeTo (ctx.outputFolder e) t with
    | mk t₁ written =>
      simp only [hwrite] at h
      cases written with
      | error fault => cases h
      | ok paths =>
        cases h
        exact ⟨p, paths, rfl, hwrite, rfl⟩

/-- How a run has written its files: their names are distinct and can be addressed in the output
folder, and the folder holds the files in place of what was in it. -/
structure Prepared.Written (p : Prepared) (ctx : Context) (e : Evaluation) (t t' : FileTree)
    (folder : Location) (paths : List String) : Prop where
  input : inputFolder? ctx e t = some folder
  distinct : (p.bundle.files.map Prod.fst).Nodup
  isName : ∀ f ∈ p.bundle.files, Path.isName f.1 = true
  paths : paths = p.bundle.files.map fun f => Path.join (ctx.outputFolder e) f.1
  canEnter : FileTree.canName (ctx.resultFolder e) e.descriptor.outputFolder = true
  canName : ∀ f ∈ p.bundle.files, FileTree.canName (ctx.outputFolder e) f.1 = true
  free : ∀ f ∈ p.bundle.files,
    f.1 :: outputLocation e folder ∉ Path.visited (ctx.outputFolder e)
  notFile : ∀ content, t.nodeAt? (outputLocation e folder) ≠ some (.file content)
  replaced : t.Replaced t' (ctx.outputFolder e) (outputLocation e folder) p.bundle.files

theorem written_of_writeTo {p : Prepared} {paths : List String} (ht : t.PlainNames)
    (hprepare : prepare ctx e now t = .ok p)
    (hwrite : p.bundle.writeTo (ctx.outputFolder e) t = (t', .ok paths)) :
    ∃ folder, p.Written ctx e t t' folder paths := by
  obtain ⟨folder, hfolder⟩ := inputFolder?_of_collect (prepare_eq_ok hprepare).1
  have hbase := hasFolder_of_inputFolder? hfolder
  obtain ⟨hname, hopen, hsize⟩ := outputFolder_isName e
  obtain ⟨hdistinct, hfiles⟩ := names_of_prepare ht hprepare
  have hok : (p.bundle.writeTo (ctx.outputFolder e) t).2 = .ok paths := congrArg Prod.snd hwrite
  obtain ⟨hpaths, hcan, hnotFile, haddress⟩ :=
    (Bundle.writeTo_ok_iff hbase hname hopen hsize hfiles).1 hok
  have hreplaced := Bundle.replaced_of_writeTo hbase hname hopen hsize hfiles hdistinct hok
  rw [show (p.bundle.writeTo (Path.join _ _) t).1 = t' from congrArg Prod.fst hwrite] at hreplaced
  exact ⟨folder, hfolder, hdistinct, hfiles, hpaths, hcan, fun f hf => (haddress f hf).1,
    fun f hf => (haddress f hf).2, hnotFile, hreplaced⟩

/-- After a run the folders of the results and of the output are there. -/
theorem Prepared.Written.hasFolder {p : Prepared} {folder : Location} {paths : List String}
    (h : p.Written ctx e t t' folder paths) :
    t'.HasFolder (ctx.resultFolder e) folder ∧
      t'.HasFolder (ctx.outputFolder e) (outputLocation e folder) := by
  obtain ⟨hname, hopen, -⟩ := outputFolder_isName e
  exact h.replaced.hasFolder (hasFolder_of_inputFolder? h.input) hname hopen h.canEnter h.free

/-- What a run does to its output folder: it has written files with distinct names, those of its
evaluation, which lie directly in the folder and have the contents of the bundle, and the rest of
the tree is as before. -/
structure RunReport.ReplacesOutput (r : RunReport) (t t' : FileTree) (p : Prepared)
    (folder : Location) : Prop where
  located : t'.locate? r.outputFolder = some folder
  names : p.bundle.files.map Prod.fst =
    outputNames r.evaluation (p.collected.dataset.rows.map Row.id)
  written : r.written = p.bundle.files.map fun f => Path.join r.outputFolder f.1
  distinct : r.written.Nodup
  direct : ∀ f ∈ p.bundle.files,
    t'.locate? (Path.join r.outputFolder f.1) = some (f.1 :: folder)
  replaced : t.Replaced t' r.outputFolder folder p.bundle.files

/-- A run that ends well replaces its output folder by the files it has prepared, and changes
nothing else.  They are all that is in the folder exactly when the path to it does not lead
through its inside.  File names stay plain. -/
theorem run_replaces_output (ht : t.PlainNames) (h : run ctx e now t = (t', .ok r)) :
    ∃ p folder, prepare ctx e now t = .ok p ∧ r = p.report ctx e r.written ∧
      r.ReplacesOutput t t' p folder ∧
      (t'.HoldsExactly folder p.bundle.files ↔
        ∀ l ∈ Path.visited r.outputFolder, FileTree.isInside folder l = false) ∧
      t'.PlainNames := by
  obtain ⟨p, paths, hprepare, hwrite, rfl⟩ := run_eq_ok h
  obtain ⟨folder, hwritten⟩ := written_of_writeTo ht hprepare hwrite
  obtain ⟨hbase, houtput⟩ := hwritten.hasFolder
  refine ⟨p, outputLocation e folder, hprepare, rfl,
    ⟨?_, map_fst_files hprepare, hwritten.paths, ?_, ?_, hwritten.replaced⟩,
    hwritten.replaced.holdsExactly_iff hwritten.free,
    hwritten.replaced.plainNames ht hwritten.isName⟩
  · exact (hbase.locate?_join (outputFolder_isName e).1).trans (if_pos hwritten.canEnter)
  · have hmap : paths = (p.bundle.files.map Prod.fst).map (Path.join (ctx.outputFolder e)) := by
      rw [hwritten.paths, List.map_map]
      rfl
    show paths.Nodup
    rw [hmap]
    refine hwritten.distinct.map_on fun a ha b hb hab => ?_
    obtain ⟨f, hf, rfl⟩ := List.mem_map.1 ha
    obtain ⟨g, hg, rfl⟩ := List.mem_map.1 hb
    exact Path.join_injective houtput.endsOpen (hwritten.isName f hf) (hwritten.isName g hg) hab
  · intro f hf
    exact (houtput.locate?_join (hwritten.isName f hf)).trans (if_pos (hwritten.canName f hf))

end Run

/-- A run whose report passes a test ends well. -/
theorem exists_run {ctx : Context} {e : Evaluation} {now : String} {t : FileTree}
    {p : RunReport → Bool} (h : (run ctx e now t).2.toOption.any p = true) :
    ∃ r, run ctx e now t = ((run ctx e now t).1, .ok r) ∧ p r = true := by
  obtain ⟨r, hr, hp⟩ := exists_of_any h
  refine ⟨r, ?_, hp⟩
  rw [← hr]

theorem singleBox_replaced :
    ∃ t' r p, singleBox.PlainNames ∧
      run freshContext .costBoxplot "now" singleBox = (t', .ok r) ∧
      r.written = ["r/result_2/plot/data.csv", "r/result_2/plot/summary.json",
        "r/result_2/plot/Abilene_fliers.csv"] ∧
      r.ReplacesOutput singleBox t' p ["plot", "result_2", "r"] ∧
      t'.HoldsExactly ["plot", "result_2", "r"] p.bundle.files := by
  have hplain : singleBox.PlainNames := by decide +kernel
  have hrun : (run freshContext .costBoxplot "now" singleBox).2.toOption.any
      (fun r => r.outputFolder = "r/result_2/plot" ∧
        r.written = ["r/result_2/plot/data.csv", "r/result_2/plot/summary.json",
          "r/result_2/plot/Abilene_fliers.csv"] ∧
        (run freshContext .costBoxplot "now" singleBox).1.locate? "r/result_2/plot" =
          some ["plot", "result_2", "r"]) = true := by
    decide +kernel
  obtain ⟨r, hr, htest⟩ := exists_run hrun
  obtain ⟨hfolder, hwritten, hlocate⟩ := of_decide_eq_true htest
  obtain ⟨p, folder, -, -, hreplaces, hexact, -⟩ := run_replaces_output hplain hr
  have hlocated := hreplaces.located
  rw [hfolder, hlocate, Option.some.injEq] at hlocated
  subst hlocated
  refine ⟨_, r, p, hplain, hr, hwritten, hreplaces, hexact.2 ?_⟩
  rw [hfolder]
  decide

/-- A context whose output folder is reached through a folder inside it. -/
def detourContext : Context := ⟨{ root := "result_1/plot/sub/../../.." }, .fresh⟩

/-- The folders on that way. -/
def detourTree : FileTree :=
  (((∅ : FileTree).makeFolder? "result_1" []).bind fun t =>
    (t.makeFolder? "plot" ["result_1"]).bind fun t =>
      t.makeFolder? "sub" ["plot", "result_1"]).getD ∅

/-- The folder is emptied, but the way to it is made anew. -/
theorem emptied_folder_stays :
    ∃ t' r, run detourContext .errorRate "now" detourTree = (t', .ok r) ∧
      t'.locate? r.outputFolder = some ["plot", "result_1"] ∧
      t'.nodeAt? ["sub", "plot", "result_1"] = some .folder ∧
      ∀ files, ¬ t'.HoldsExactly ["plot", "result_1"] files := by
  have hrun : (run detourContext .errorRate "now" detourTree).2.toOption.any
      (fun r => r.outputFolder = "result_1/plot/sub/../../../result_1/plot" ∧
        (run detourContext .errorRate "now" detourTree).1.locate?
          "result_1/plot/sub/../../../result_1/plot" = some ["plot", "result_1"] ∧
        (run detourContext .errorRate "now" detourTree).1.nodeAt?
          ["sub", "plot", "result_1"] = some .folder) = true := by
    decide +kernel
  obtain ⟨r, hr, htest⟩ := exists_run hrun
  obtain ⟨hpath, hlocate, hfolder⟩ := of_decide_eq_true htest
  refine ⟨_, r, hr, ?_, hfolder, fun files hexact => ?_⟩
  · rw [hpath]
    exact hlocate
  · by_cases hothers : ∀ f ∈ files, ["sub", "plot", "result_1"] ≠ f.1 :: ["plot", "result_1"]
    · have hnone := hexact.nothing _ (by decide) hothers
      rw [hfolder] at hnone
      cases hnone
    · obtain ⟨f, hf, he⟩ :
          ∃ f ∈ files, ["sub", "plot", "result_1"] = f.1 :: ["plot", "result_1"] := by
        simpa using hothers
      have hfile := hexact.contents f hf
      rw [← he, hfolder] at hfile
      cases hfile

end FigureData
