/-
  The boxes of the cost figure, one for every topology that the names of the files tell apart.

  No file is skipped and no network left out, so what is lost is lost between names and rows: a
  row is known by the part of a name before its first dot.  Files of different topologies that
  agree so far share a row, and the last of them is the one that it shows.

  Proved:
  * `exists_topology`: the files read are those named after a topology.
  * `ids_of_collect`: there is one row for every stem.
  * `showsBox_of_collect`: a row shows the box of the values in the last file with its stem.
  * `boxes_of_collect`: what the rows of a run show, and that every file has a box of its own
    exactly when no topology has a dot in its name.
  * `lost_box`: two files that share a row.
-/
import FigureData.Proofs.Glob.Suffix
import FigureData.Proofs.Run.LastFiles

namespace FigureData

open Extraction Outcome

/-! ## Names -/

/-- The part of a file name before its first dot. -/
def fileStem (name : String) : String := String.ofList (Text.upTo '.' name.toList)

theorem dot_not_mem_fileStem (name : String) : '.' ∉ (fileStem name).toList := by
  unfold fileStem Text.upTo
  rw [String.toList_ofList]
  intro hmem
  have hne := List.mem_takeWhile_imp hmem
  exact absurd rfl (of_decide_eq_true hne)

/-- The stem is the topology where that has no dot. -/
theorem fileStem_topology {topology : String} (h : '.' ∉ topology.toList) :
    fileStem (topology ++ ".gml.json") = topology := by
  have hall : ∀ c ∈ topology.toList, decide (c ≠ '.') = true := by
    intro c hc
    refine decide_eq_true ?_
    rintro rfl
    exact h hc
  unfold fileStem Text.upTo
  rw [String.toList_append, List.takeWhile_append_of_pos hall]
  show String.ofList (topology.toList ++ []) = topology
  rw [List.append_nil, String.ofList_toList]

/-- The files read are those named after a topology. -/
theorem exists_topology {ctx : Context} {t : FileTree} {f : String × Bytes}
    (hf : f ∈ matchingFiles ctx .costBoxplot t) : ∃ topology, f.1 = topology ++ ".gml.json" := by
  have hpatterns : FileSelector.readPatterns ["*.gml.json"] =
      .ok [.zeroOrMore :: ".gml.json".toList.map .literal] := rfl
  have hascii : ".gml.json".toList.all Bytes.isAscii = true := by decide
  have hlast : ".gml.json".toList.getLast? ≠ some '.' := by decide
  obtain ⟨patterns, tokens, hread, htokens, hmatches⟩ := exists_pattern hf
  rw [show Evaluation.costBoxplot.descriptor.filePatterns = ["*.gml.json"] from rfl, hpatterns,
    Except.ok.injEq] at hread
  rw [← hread, List.mem_singleton] at htokens
  rw [htokens] at hmatches
  obtain ⟨topology, htopology⟩ :=
    (Glob.matchesName_suffix_iff (List.all_eq_true.1 hascii) hlast f.1).1 hmatches
  refine ⟨String.ofList topology, String.toList_inj.1 ?_⟩
  rw [String.toList_append, String.toList_ofList]
  exact htopology.symm

/-! ## Boxes -/

/-- Where the values of a box stand. -/
def boxSource : SampleSource := .valueArray Descriptor.boxplotValues

/-- The values of a box in the content of a file. -/
def boxValues (content : Bytes) : List Float :=
  match (Bytes.text? content).bind Json.readSorted? with
  | some j => boxSource.numbers j
  | none => []

/-- The row shows the numbers that draw a box. -/
structure Dataset.ShowsSummary (d : Dataset) (row : Row) (m : Summary) : Prop where
  lowerWhisker : d.cell? row "lower_whisker" = some (.number m.whiskerLow)
  lowerQuartile : d.cell? row "lower_quartile" = some (.number m.p25)
  median : d.cell? row "median" = some (.number m.median)
  upperQuartile : d.cell? row "upper_quartile" = some (.number m.p75)
  upperWhisker : d.cell? row "upper_whisker" = some (.number m.whiskerHigh)

/-- The row shows the box of these values. -/
def Dataset.ShowsBox (d : Dataset) (row : Row) (values : List Float) : Prop :=
  ∃ m, Sample.summarize ⟨values⟩ = .ok m ∧ d.ShowsSummary row m

/-- Every file has a row of its own, which has the name of the topology and shows the box of
the values in the file. -/
structure Dataset.KeepsBoxes (d : Dataset) (files : List (String × Bytes)) : Prop where
  rows : d.rows.length = files.length
  own : ∀ f ∈ files, ∀ topology, f.1 = topology ++ ".gml.json" →
    ∃ row ∈ d.rows, row.id = topology ∧ d.ShowsBox row (boxValues f.2)

/-- What the table of a run shows of the files: nothing is skipped or left out, and there is one
row for every stem, with the box of the values in the last file that has the stem. -/
structure Collected.DrawsBoxes (c : Collected) (files : List (String × Bytes)) : Prop where
  counted : c.provenance.inputFiles = files.length
  skipped : c.skippedFiles = []
  dropped : c.droppedEntities = []
  ids_nodup : (c.dataset.rows.map Row.id).Nodup
  ids : ∀ id, id ∈ c.dataset.rows.map Row.id ↔ id ∈ files.map fun f => fileStem f.1
  boxes : ∀ row ∈ c.dataset.rows, ∃ f,
    files.reverse.find? (fun f => fileStem f.1 = row.id) = some f ∧
      c.dataset.ShowsBox row (boxValues f.2)

/-- The row of a network that is kept shows the summary of its sample. -/
theorem showsSummary_of_kept {d : Dataset} {entity : Entity} {sentinel : Float}
    {s : EntitySummary} (hcolumns : d.columns = Descriptor.costBoxplot.headers)
    (hentity : entity.IsMeasured .costBoxplot)
    (h : entity.summarize .costBoxplot sentinel = .ok (.kept s)) {sample : Sample}
    (hsample : entity.samples.find? "random" = some sample) (index : Nat) :
    sample.isComplete = true ∧ ∃ m, sample.summarize = .ok m ∧
      d.ShowsSummary (s.rowAt Descriptor.costBoxplot.columns index) m := by
  obtain ⟨m, hm, hsummary⟩ := Entity.measured_summary hentity h hsample
  split_ifs at hsummary with hcomplete
  swap
  · have hpolicy : Descriptor.costBoxplot.missingPolicy "random" = .abort := rfl
    rw [hpolicy] at hsummary
    cases hsummary.1
  obtain ⟨hsummary, hfinite⟩ := hsummary
  have hcell : ∀ {header : String} {statistic : Statistic} {x : Float},
      (Descriptor.costBoxplot.columns.find? fun c => c.header = header) =
        some (.stat header "random" statistic) →
      s.statistic? "random" statistic = some x → x.isFinite = true →
      d.cell? (s.rowAt Descriptor.costBoxplot.columns index) header = some (.number x) := by
    intro header statistic x hcolumn hstatistic hx
    rw [Dataset.cell?_rowAt _ hcolumns hcolumn]
    show some (Cell.ofOption (s.statistic? "random" statistic)) = _
    rw [hstatistic, Cell.ofOption_some (Binary64.isNaN_of_isFinite hx)]
  have hquantile : ∀ p, s.statistic? "random" (.quantile p) = some (m.quantile p) := by
    intro p
    unfold EntitySummary.statistic?
    simp only [hm, Option.map_some]
  have hlow : s.statistic? "random" .whiskerLow = some m.whiskerLow := by
    unfold EntitySummary.statistic?
    simp only [hm, Option.map_some]
  have hhigh : s.statistic? "random" .whiskerHigh = some m.whiskerHigh := by
    unfold EntitySummary.statistic?
    simp only [hm, Option.map_some]
  exact ⟨hcomplete, m, hsummary, hcell rfl hlow hfinite.whiskerLow,
    hcell rfl (hquantile .p25) (hfinite.quantile .p25),
    hcell rfl (hquantile .p50) (hfinite.quantile .p50),
    hcell rfl (hquantile .p75) (hfinite.quantile .p75), hcell rfl hhigh hfinite.whiskerHigh⟩

/-! ## Runs -/

section Run

variable {ctx : Context} {t : FileTree} {c : Collected}

/-- The files read have the stems of the records accepted, in their order. -/
theorem map_stem_accepted {e : Evaluation} {l : Loader}
    (h : List.Forall₂ (fun f r => l.read f.1 f.2 = .ok r) (matchingFiles ctx e t)
      (acceptedRecords ctx e t)) :
    (acceptedRecords ctx e t).map Record.stem =
      (matchingFiles ctx e t).map fun f => fileStem f.1 := by
  refine map_eq_of_forall₂ (h.imp ?_)
  intro f r hr
  show fileStem r.fileName = fileStem f.1
  rw [(Loader.read_eq_ok hr).1]

/-- The only policy of the boxes is to stop the run, so no file is skipped, no network left out,
and there is a row for every stem. -/
theorem ids_of_collect (h : collect ctx .costBoxplot t = .ok c) :
    c.provenance.inputFiles = (matchingFiles ctx .costBoxplot t).length ∧ c.skippedFiles = [] ∧
      c.droppedEntities = [] ∧ (c.dataset.rows.map Row.id).Nodup ∧
      ∀ id, id ∈ c.dataset.rows.map Row.id ↔
        id ∈ (matchingFiles ctx .costBoxplot t).map fun f => fileStem f.1 := by
  rw [collect_eq] at h
  obtain ⟨⟨intake, entities⟩, htake, h⟩ := bind_eq_ok h
  obtain ⟨l, hl, -⟩ := exists_loader ctx .costBoxplot
  obtain ⟨hcount, hskipped, haccepted⟩ := accepted_of_abort rfl hl htake
  obtain ⟨hskipped', hcount'⟩ := evaluate_fields h
  obtain ⟨sifted, hsifted, hdataset, hdropped, -⟩ := evaluate_eq_ok h
  have hkeys := keys_of_shared (.ofDescriptor .costBoxplot) rfl (by decide) (by decide) htake
  have hpolicies : ∀ entity ∈ entities, ∀ x ∈ entity.samples.entries,
      Descriptor.costBoxplot.missingPolicy x.1 ≠ .dropEntity := by
    intro entity hentity x hx
    have hlabel : x.1 ∈ entity.samples.keys := List.mem_map_of_mem hx
    rw [hkeys entity hentity] at hlabel
    rw [List.mem_singleton.1 hlabel]
    decide
  obtain ⟨hnone, hkept⟩ := kept_of_policies hsifted hpolicies
  refine ⟨hcount'.trans hcount, hskipped'.trans hskipped, hdropped.trans hnone, ?_⟩
  obtain ⟨hnodup, hids⟩ := mem_ids_iff rfl (by decide) (by decide) htake
  obtain ⟨ordered, hperm, -, hrows⟩ := Dataset.ofDescriptor_eq_ok hdataset
  have hkeptIds : sifted.kept.map EntitySummary.id = entities.map Entity.id :=
    map_eq_of_forall₂ (hkept.imp fun entity s hs => (Entity.summarize_kept_fields hs).1)
  have hrowIds : (c.dataset.rows.map Row.id).Perm (entities.map Entity.id) := by
    rw [hrows, map_id_rowsOf, ← hkeptIds]
    exact hperm.map _
  refine ⟨hrowIds.nodup_iff.2 hnodup, ?_⟩
  intro id
  rw [hrowIds.mem_iff, hids, ← map_stem_accepted haccepted, List.mem_map]

/-- The row of a network shows the box of the values in the last file with its stem. -/
theorem showsBox_of_collect (h : collect ctx .costBoxplot t = .ok c) :
    ∀ row ∈ c.dataset.rows, ∃ f,
      (matchingFiles ctx .costBoxplot t).reverse.find? (fun f => fileStem f.1 = row.id) = some f ∧
      c.dataset.ShowsBox row (boxValues f.2) := by
  obtain ⟨hcolumns, intake, entities, htake, hrows⟩ := exists_kept_of_mem_rows rfl h
  obtain ⟨l, hl, -⟩ := exists_loader ctx .costBoxplot
  obtain ⟨-, -, haccepted⟩ := accepted_of_abort rfl hl htake
  intro row hrow
  obtain ⟨entity, hentity, s, index, hsummary, rfl⟩ := hrows row hrow
  obtain ⟨r, j, sample, hlast, hj, hsample, hread⟩ :=
    exists_lastAccepted rfl (by decide) (by decide) htake hentity
      (s := { label := "random", source := boxSource, missing := .abort }) (by decide)
  have hagree : ∀ (f : String × Bytes) (r : Record), l.read f.1 f.2 = .ok r →
      decide (fileStem f.1 = entity.id) = decide (r.stem = entity.id) := by
    intro f r hr
    rw [← (Loader.read_eq_ok hr).1]
    rfl
  obtain ⟨f, hf, hr⟩ :=
    exists_find?_of_forall₂ hagree (List.forall₂_reverse_iff.2 haccepted) hlast
  refine ⟨f, ?_, ?_⟩
  · rw [show (s.rowAt Evaluation.costBoxplot.descriptor.columns index).id = s.id from rfl,
      (Entity.summarize_kept_fields hsummary).1]
    exact hf
  · have hmeasured := isMeasured_of_takeIn rfl htake entity hentity
    obtain ⟨hcomplete, m, hm, hshows⟩ :=
      showsSummary_of_kept hcolumns hmeasured hsummary hsample index
    have hvalues : boxValues f.2 = sample.values := by
      unfold boxValues
      rw [(Loader.read_eq_ok hr).2 j hj, values_of_isComplete hread hcomplete]
    refine ⟨m, ?_, hshows⟩
    rw [hvalues]
    exact hm

/-- Names that differ have different stems where no topology has a dot. -/
theorem nodup_stems (hdots : ∀ f ∈ matchingFiles ctx .costBoxplot t, ∀ topology,
      f.1 = topology ++ ".gml.json" → '.' ∉ topology.toList) :
    (∀ f ∈ matchingFiles ctx .costBoxplot t, f.1 = fileStem f.1 ++ ".gml.json") ∧
      ((matchingFiles ctx .costBoxplot t).map fun f => fileStem f.1).Nodup := by
  have hname : ∀ f ∈ matchingFiles ctx .costBoxplot t, f.1 = fileStem f.1 ++ ".gml.json" := by
    intro f hf
    obtain ⟨topology, htopology⟩ := exists_topology hf
    rw [htopology, fileStem_topology (hdots f hf topology htopology)]
  refine ⟨hname, List.pairwise_map.2 ?_⟩
  refine matchingFiles_sorted.imp_of_mem ?_
  intro f g hf hg hlt hstem
  rw [hname f hf, hname g hg, hstem] at hlt
  exact lt_irrefl _ hlt

/-- The table of the boxes has one row for every stem, which shows the last file with that stem.
So every file has a box of its own exactly when no topology has a dot in its name. -/
theorem boxes_of_collect (h : collect ctx .costBoxplot t = .ok c) :
    c.DrawsBoxes (matchingFiles ctx .costBoxplot t) ∧
    (∀ f ∈ matchingFiles ctx .costBoxplot t, ∃ topology, f.1 = topology ++ ".gml.json") ∧
    (c.dataset.KeepsBoxes (matchingFiles ctx .costBoxplot t) ↔
      ∀ f ∈ matchingFiles ctx .costBoxplot t, ∀ topology,
        f.1 = topology ++ ".gml.json" → '.' ∉ topology.toList) := by
  obtain ⟨hcount, hskipped, hdropped, hnodup, hids⟩ := ids_of_collect h
  have hshows := showsBox_of_collect h
  refine ⟨⟨hcount, hskipped, hdropped, hnodup, hids, hshows⟩, fun f hf => exists_topology hf, ?_⟩
  constructor
  · intro hkeeps f hf topology htopology
    obtain ⟨row, hrow, hid, -⟩ := hkeeps.own f hf topology htopology
    obtain ⟨f', -, hstem⟩ := List.mem_map.1 ((hids row.id).1 (List.mem_map_of_mem hrow))
    rw [← hid, ← hstem]
    exact dot_not_mem_fileStem f'.1
  · intro hdots
    obtain ⟨hname, hstems⟩ := nodup_stems hdots
    refine ⟨?_, ?_⟩
    · have hperm := (List.perm_ext_iff_of_nodup hnodup hstems).2 hids
      have hlength := hperm.length_eq
      rwa [List.length_map, List.length_map] at hlength
    · intro f hf topology htopology
      have hstem : fileStem f.1 = topology := by
        rw [htopology]
        exact fileStem_topology (hdots f hf topology htopology)
      obtain ⟨row, hrow, hid⟩ := List.mem_map.1
        ((hids topology).2 (List.mem_map.2 ⟨f, hf, hstem⟩))
      obtain ⟨f', hlast, hbox⟩ := hshows row hrow
      have hmem : f' ∈ matchingFiles ctx .costBoxplot t :=
        List.mem_reverse.1 (List.mem_of_find?_eq_some hlast)
      have hstem' := List.find?_some hlast
      rw [decide_eq_true_eq, hid, ← hstem] at hstem'
      obtain rfl : f' = f := List.inj_on_of_nodup_map hstems hmem hf hstem'
      exact ⟨row, hrow, hid, hbox⟩

end Run

/-- The results of a topology with one value and an ideal cost. -/
def boxText (value : String) : String :=
  "[\x7b\"random_permutations\":\x7b\"cost\":\x7b\"values\":[" ++ value ++
    "]\x7d\x7d,\"ideal_cost\":1\x7d]"

/-- The results of one topology. -/
def singleBox : FileTree := resultTree .costBoxplot [("Abilene.gml.json", .ofText (boxText "3"))]

theorem singleBox_kept :
    ∃ c, collect freshContext .costBoxplot singleBox = .ok c ∧ c.dataset.rows.length = 1 ∧
      c.dataset.KeepsBoxes (matchingFiles freshContext .costBoxplot singleBox) := by
  have hrun : (collect freshContext .costBoxplot singleBox).toOption.any
      (fun c => c.dataset.rows.length = 1) = true := by
    decide +kernel
  have hnames : (matchingFiles freshContext .costBoxplot singleBox).map Prod.fst =
      ["Abilene.gml.json"] := by
    decide +kernel
  obtain ⟨c, hcollect, hrows⟩ := exists_of_any hrun
  obtain ⟨-, -, hkeeps⟩ := boxes_of_collect hcollect
  refine ⟨c, hcollect, of_decide_eq_true hrows, hkeeps.2 ?_⟩
  intro f hf topology htopology
  have hname := List.mem_map_of_mem (f := Prod.fst) hf
  rw [hnames, List.mem_singleton, htopology, ← String.toList_inj, String.toList_append] at hname
  have htopology : topology.toList = "Abilene".toList := List.append_cancel_right hname
  rw [htopology]
  decide

/-- The results of two topologies with names that agree up to a dot. -/
def dottedBoxes : FileTree :=
  resultTree .costBoxplot
    [("a.b.gml.json", .ofText (boxText "3")), ("a.c.gml.json", .ofText (boxText "5"))]

/-- Both files are read, and one box is left. -/
theorem lost_box :
    ∃ c, collect freshContext .costBoxplot dottedBoxes = .ok c ∧ c.provenance.inputFiles = 2 ∧
      c.dataset.rows.map Row.id = ["a"] ∧
      ¬ c.dataset.KeepsBoxes (matchingFiles freshContext .costBoxplot dottedBoxes) := by
  have hrun : (collect freshContext .costBoxplot dottedBoxes).toOption.any
      (fun c => decide (c.provenance.inputFiles = 2) &&
        decide (c.dataset.rows.map Row.id = ["a"])) = true := by
    decide +kernel
  have hfiles : (matchingFiles freshContext .costBoxplot dottedBoxes).length = 2 := by
    decide +kernel
  obtain ⟨c, hcollect, hboth⟩ := exists_of_any hrun
  rw [Bool.and_eq_true, decide_eq_true_eq, decide_eq_true_eq] at hboth
  refine ⟨c, hcollect, hboth.1, hboth.2, ?_⟩
  intro hkeeps
  have hlength := congrArg List.length hboth.2
  rw [List.length_map, hkeeps.rows, hfiles] at hlength
  cases hlength

end FigureData
