/-
  A run reads and writes in the folder of its results alone.

  Two trees that agree there, whatever else is in them, give the same report and the same files.
  At another time they do so too, apart from the time that the summary records.

  Proved:
  * `FileTree.HasFolder.writeFiles_retimed`, `Bundle.writeTo_retimed`: files are written alike into
    trees that agree where they are written, up to the one that refuses.
  * `prepare_retimed`: the same files are prepared, or the same goes wrong.
  * `run_retimed`: a run reports the same and leaves the same in its folder.
-/
import FigureData.Proofs.Run.Failure
import FigureData.Proofs.Run.Rerun

namespace FigureData

open Outcome

/-! ## Nodes at another time -/

/-- Content of the file with a summary. -/
def ScalarSummary.fileBytes (s : ScalarSummary) : Bytes := Bytes.ofText s.encode.toJson.canonical

/-- The same stands at a location, except that a summary records another time. -/
def Node.Retimed (now later : String) (x y : Option Node) : Prop :=
  y = x ∨ ∃ s : ScalarSummary, s.provenance.createdAt = now ∧
    x = some (.file s.fileBytes) ∧ y = some (.file (s.at later).fileBytes)

namespace Node

variable {now later : String} {x y : Option Node}

theorem Retimed.refl (x : Option Node) : Retimed now later x x := .inl rfl

theorem Retimed.isFolder_iff (h : Retimed now later x y) :
    y = some .folder ↔ x = some .folder := by
  rcases h with rfl | ⟨s, -, rfl, rfl⟩
  · rfl
  · simp

theorem Retimed.isFile_iff (h : Retimed now later x y) :
    (∃ content, y = some (.file content)) ↔ ∃ content, x = some (.file content) := by
  rcases h with rfl | ⟨s, -, rfl, rfl⟩
  · rfl
  · simp

/-- At the same time nothing differs. -/
theorem retimed_self_iff : Retimed now now x y ↔ y = x := by
  constructor
  · rintro (rfl | ⟨s, rfl, rfl, rfl⟩)
    · rfl
    · rfl
  · exact .inl

end Node

/-- The same stands in a folder, apart from times. -/
def FileTree.RetimedIn (t u : FileTree) (folder : Location) (now later : String) : Prop :=
  ∀ l, folder <:+ l → Node.Retimed now later (t.nodeAt? l) (u.nodeAt? l)

/-! ## Writing alike -/

/-- Files with the same names and, apart from times, the same contents. -/
def RetimedFiles (now later : String) (files others : List (String × Bytes)) : Prop :=
  List.Forall₂ (fun f g => g.1 = f.1 ∧
    Node.Retimed now later (some (.file f.2)) (some (.file g.2))) files others

theorem Bundle.retimedFiles_at {b : Bundle} {now : String}
    (h : b.summary.provenance.createdAt = now) (later : String) :
    RetimedFiles now later b.files (b.at later).files := by
  refine .cons ⟨rfl, .refl _⟩ (.cons ⟨rfl, .inr ⟨b.summary, h, rfl, rfl⟩⟩ ?_)
  exact List.forall₂_same.2 fun f _ => ⟨rfl, .refl _⟩

section Writing

variable {t u : FileTree} {base name : String} {folder parent : Location} {now later : String}

/-- Into trees that agree in a folder files are written alike, up to the one that is refused. -/
theorem FileTree.HasFolder.writeFiles_retimed {files others : List (String × Bytes)}
    (hfiles : RetimedFiles now later files others) (ht : t.HasFolder base folder)
    (hu : u.HasFolder base folder) (hnames : ∀ f ∈ files, Path.isName f.1 = true)
    (hsame : t.RetimedIn u folder now later) :
    (Bundle.writeFiles u base others).2 = (Bundle.writeFiles t base files).2 ∧
      (Bundle.writeFiles t base files).1.RetimedIn (Bundle.writeFiles u base others).1 folder
        now later := by
  induction hfiles generalizing t u with
  | nil => exact ⟨rfl, hsame⟩
  | @cons f g files others hfile _ ih =>
    obtain ⟨name, content⟩ := f
    obtain ⟨name', content'⟩ := g
    obtain ⟨rfl, hcontent⟩ := hfile
    rw [List.forall_mem_cons] at hnames
    have hfolder : u.isFolder (name' :: folder) = t.isFolder (name' :: folder) := by
      rw [Bool.eq_iff_iff, isFolder_iff, isFolder_iff]
      exact (hsame _ (List.suffix_cons _ _)).isFolder_iff
    have hboth : (∃ u', u.writeAt? (Path.join base name') content' = some u') ↔
        ∃ t', t.writeAt? (Path.join base name') content = some t' := by
      rw [hu.writeAt?_eq_some_iff hnames.1, ht.writeAt?_eq_some_iff hnames.1, hfolder]
    rw [Bundle.writeFiles, Bundle.writeFiles]
    cases htwrite : t.writeAt? (Path.join base name') content with
    | none =>
      cases huwrite : u.writeAt? (Path.join base name') content' with
      | none => exact ⟨rfl, hsame⟩
      | some u' =>
        obtain ⟨t', ht'⟩ := hboth.1 ⟨u', huwrite⟩
        rw [htwrite] at ht'
        cases ht'
    | some t' =>
      obtain ⟨u', huwrite⟩ := hboth.2 ⟨t', htwrite⟩
      obtain ⟨htnodes, htfolders⟩ := ht.writeAt?_spec hnames.1 htwrite
      obtain ⟨hunodes, hufolders⟩ := hu.writeAt?_spec hnames.1 huwrite
      have hafter : t'.RetimedIn u' folder now later := by
        intro l hl
        rw [htnodes, hunodes]
        split
        · exact hcontent
        · exact hsame l hl
      obtain ⟨hresult, hnodes⟩ := ih (ht.congr htfolders) (hu.congr hufolders) hnames.2 hafter
      rw [huwrite]
      exact ⟨congrArg (Except.map _) hresult, hnodes⟩

/-- A bundle is written alike into trees that agree in its folder, or refused for the same
reason. -/
theorem Bundle.writeTo_retimed {b : Bundle} (ht : t.HasFolder base parent)
    (hu : u.HasFolder base parent) (hname : Path.isName name = true)
    (hopen : Path.endsOpen name = true) (hsize : name.utf8ByteSize ≤ Path.maxNameBytes)
    (hfiles : ∀ f ∈ b.files, Path.isName f.1 = true)
    (hcreated : b.summary.provenance.createdAt = now)
    (hsame : t.RetimedIn u (name :: parent) now later) :
    ((b.at later).writeTo (Path.join base name) u).2 = (b.writeTo (Path.join base name) t).2 ∧
      (b.writeTo (Path.join base name) t).1.RetimedIn
        ((b.at later).writeTo (Path.join base name) u).1 (name :: parent) now later := by
  have hself := hsame _ (List.suffix_refl _)
  have hfile := hself.isFile_iff
  rcases b.writeTo_cases ht hname hsize with
    ⟨htcan, htwrite⟩ | ⟨htcan, htfile, htwrite⟩ | ⟨htcan, htfree, t', htnew, htwrite⟩
  · rcases (b.at later).writeTo_cases hu hname hsize with
      ⟨-, huwrite⟩ | ⟨hucan, -, -⟩ | ⟨hucan, -, -⟩
    · rw [htwrite, huwrite]
      exact ⟨rfl, hsame⟩
    · rw [htcan] at hucan
      cases hucan
    · rw [htcan] at hucan
      cases hucan
  · rcases (b.at later).writeTo_cases hu hname hsize with
      ⟨hucan, -⟩ | ⟨-, -, huwrite⟩ | ⟨-, hufree, -⟩
    · rw [htcan] at hucan
      cases hucan
    · rw [htwrite, huwrite]
      exact ⟨rfl, hsame⟩
    · obtain ⟨content, hcontent⟩ := hfile.2 htfile
      exact absurd hcontent (hufree content)
  · rcases (b.at later).writeTo_cases hu hname hsize with
      ⟨hucan, -⟩ | ⟨-, hufile, -⟩ | ⟨-, -, u', hunew, huwrite⟩
    · rw [htcan] at hucan
      cases hucan
    · obtain ⟨content, hcontent⟩ := hfile.1 hufile
      exact absurd hcontent (htfree content)
    · rw [htwrite, huwrite]
      refine FileTree.HasFolder.writeFiles_retimed (b.retimedFiles_at hcreated later)
        (ht.of_renewed hname hopen htcan htnew) (hu.of_renewed hname hopen htcan hunew) hfiles ?_
      intro l hl
      rw [htnew l, hunew l, if_pos hl, if_pos hl]
      exact .refl _

end Writing

/-! ## Running alike -/

/-- Two trees agree in the folder of the results of an evaluation. -/
structure AgreeFor (ctx : Context) (e : Evaluation) (t u : FileTree) : Prop where
  input : inputFolder? ctx e u = inputFolder? ctx e t
  nodes : ∀ folder, inputFolder? ctx e t = some folder →
    ∀ l, folder <:+ l → u.nodeAt? l = t.nodeAt? l

/-- The report with another time in its summary. -/
def RunReport.at (r : RunReport) (now : String) : RunReport :=
  { r with summary := r.summary.at now }

section Run

variable {ctx : Context} {e : Evaluation} {now later : String} {t u : FileTree}

theorem AgreeFor.refl (ctx : Context) (e : Evaluation) (t : FileTree) : AgreeFor ctx e t t :=
  ⟨rfl, fun _ _ _ _ => rfl⟩

theorem AgreeFor.trans {v : FileTree} (h : AgreeFor ctx e t u) (h' : AgreeFor ctx e u v) :
    AgreeFor ctx e t v where
  input := h'.input.trans h.input
  nodes folder hfolder l hl :=
    (h'.nodes folder (h.input.trans hfolder) l hl).trans (h.nodes folder hfolder l hl)

theorem AgreeFor.collect_eq (h : AgreeFor ctx e t u) : collect ctx e u = collect ctx e t := by
  refine collect_congr h.input fun folder hfolder => FileTree.filesIn_congr fun name content => ?_
  rw [h.nodes folder hfolder _ (List.suffix_cons _ _)]

theorem createdAt_of_prepare {p : Prepared} (h : prepare ctx e now t = .ok p) :
    p.bundle.summary.provenance.createdAt = now := by
  rw [(Dataset.bundle_fields (prepare_eq_ok h).2).2.1]
  rfl

/-- The same files are prepared apart from the time, or the same goes wrong. -/
theorem prepare_retimed (now later : String) (h : collect ctx e u = collect ctx e t) :
    prepare ctx e later u =
      (prepare ctx e now t).map fun p => ⟨p.collected, p.bundle.at later⟩ := by
  have hraised : ∀ {now : String} {t : FileTree} {stop : Stop} {c : Collected},
      prepare ctx e now t = .error stop → collect ctx e t = .ok c → stop = .tooManyPlaces := by
    intro now t stop c hstop hcollect
    rcases prepare_eq_error_iff.1 hstop with ⟨fault, hfault, -⟩ | ⟨c', hcollect', hbundle⟩
    · rw [hcollect] at hfault
      cases hfault
    · obtain ⟨intake, entities, kept, -, hdataset, -⟩ := collect_eq_ok hcollect'
      exact Dataset.bundle_error
        (fun row hrow => Dataset.length_cells_of_ofDescriptor hdataset hrow) hbundle
  cases hnow : prepare ctx e now t with
  | ok p => exact prepare_at hnow h
  | error stop =>
    cases hlater : prepare ctx e later u with
    | ok p =>
      rw [prepare_at hlater h.symm] at hnow
      cases hnow
    | error stop' =>
      refine congrArg Except.error ?_
      cases hcollect : collect ctx e t with
      | ok c => rw [hraised hnow hcollect, hraised hlater (h.trans hcollect)]
      | error fault =>
        unfold prepare at hnow hlater
        rw [hcollect] at hnow
        rw [h, hcollect] at hlater
        cases hnow
        cases hlater
        rfl

/-- On trees that agree in the folder of its results a run reports the same and leaves the same
there, apart from the time. -/
theorem run_retimed (now later : String) (ht : t.PlainNames) (h : AgreeFor ctx e t u) :
    (run ctx e later u).2 = (run ctx e now t).2.map (RunReport.at · later) ∧
      ∀ folder, inputFolder? ctx e t = some folder →
        (run ctx e now t).1.RetimedIn (run ctx e later u).1 folder now later := by
  have hprepare := prepare_retimed now later h.collect_eq
  unfold run
  rw [hprepare]
  cases hnow : prepare ctx e now t with
  | error stop => exact ⟨rfl, fun folder hfolder l hl => .inl (h.nodes folder hfolder l hl)⟩
  | ok p =>
    obtain ⟨folder, hfolder⟩ := inputFolder?_of_collect (prepare_eq_ok hnow).1
    obtain ⟨hname, hopen, hsize⟩ := outputFolder_isName e
    have hfiles := (names_of_prepare ht hnow).2
    have hinside : t.RetimedIn u (outputLocation e folder) now later := by
      intro l hl
      exact .inl (h.nodes folder hfolder l ((List.suffix_cons _ _).trans hl))
    have hbase := hasFolder_of_inputFolder? hfolder
    have hbase' := hasFolder_of_inputFolder? (h.input.trans hfolder)
    obtain ⟨hresult, hnodes⟩ := Bundle.writeTo_retimed hbase hbase' hname hopen hsize hfiles
      (createdAt_of_prepare hnow) hinside
    constructor
    · show (((p.bundle.at later).writeTo (ctx.outputFolder e) u).2.map _).mapError _ = _
      rw [show ((p.bundle.at later).writeTo (ctx.outputFolder e) u).2 =
        (p.bundle.writeTo (ctx.outputFolder e) t).2 from hresult]
      show _ = Except.map _ (((p.bundle.writeTo (ctx.outputFolder e) t).2.map _).mapError _)
      cases (p.bundle.writeTo (ctx.outputFolder e) t).2 <;> rfl
    · intro folder' hfolder' l hl
      rw [hfolder, Option.some.injEq] at hfolder'
      subst hfolder'
      by_cases houtput : outputLocation e folder <:+ l
      · exact hnodes l houtput
      · left
        have hfiles' := Bundle.forall_files_at (P := fun name => Path.isName name = true) later
          hfiles
        have hleft := Bundle.outside_of_writeTo hbase hname hopen hsize hfiles l houtput
        have hright := Bundle.outside_of_writeTo hbase' hname hopen hsize hfiles' l houtput
        exact (hright.trans (h.nodes folder hfolder l hl)).trans hleft.symm

end Run

end FigureData
