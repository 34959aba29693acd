/-
  Runs one after the other do not disturb each other.

  All evaluations read and write below one root, each in a folder of its own.  A run changes only
  the output folder inside of that, and whatever it does the way to the root stays open.  So each
  of several runs finds its folder as it was at first.

  Proved:
  * `inputFolder?_beside`: the folders of two evaluations lie beside each other.
  * `run_frame`: a run changes nothing outside of its output folder and leaves the way to it open.
  * `agreeFor_of_run`: so it leaves the folder of another evaluation as it was.
  * `runEach_spec`: several runs report what each of them reports alone, and leave what each of
    them leaves alone.
-/
import FigureData.Proofs.Run.Locality

namespace FigureData

open Outcome

/-! ## Folders beside each other -/

/-- Before a name that continues it, a path leads the same way whatever the name. -/
theorem Path.exists_lead (base : String) : ∃ origin front, ∀ name, isName name = true →
    start (join base name) = origin ∧ components (join base name) = front ++ [name] := by
  by_cases hopen : endsOpen base = true
  · exact ⟨start base, components base, fun name hname =>
      ⟨start_join hopen hname, components_join hopen hname⟩⟩
  by_cases hempty : base.toList = []
  · refine ⟨[], [], fun name hname => ?_⟩
    have habsolute := isAbsolute_of_isName hname
    have hjoin : join base name = name := by
      have hbase : base = "" := String.toList_inj.1 hempty
      unfold join
      rw [habsolute, hbase]
      exact String.empty_append
    constructor
    · unfold start
      rw [hjoin, habsolute]
      rfl
    · unfold components
      rw [hjoin, Text.splitAt_of_not_mem (isName_iff.1 hname).1, List.map_singleton,
        String.ofList_toList]
      rfl
  · -- the path ends in a slash, and the name follows it
    obtain ⟨init, last, hsplit⟩ := (List.eq_nil_or_concat' base.toList).resolve_left hempty
    have hlast : last = '/' := by
      by_contra hne
      exact hopen (endsOpen_iff.2 ⟨last, by simp [hsplit], hne⟩)
    refine ⟨start base, (Text.splitAt '/' init).map String.ofList, fun name hname => ?_⟩
    have hjoin : join base name = base ++ name := by
      unfold join
      rw [isAbsolute_of_isName hname]
      simp [hsplit, hlast]
    constructor
    · unfold start isAbsolute
      rw [hjoin, String.toList_append, hsplit]
      cases init <;> rfl
    · unfold components
      rw [hjoin, String.toList_append, hsplit, hlast, List.append_assoc, List.singleton_append,
        Text.splitAt_append_sep, Text.splitAt_of_not_mem (isName_iff.1 hname).1, List.map_append,
        List.map_singleton, String.ofList_toList]

theorem isName_folder (e : Evaluation) : Path.isName e.folder = true := by
  have hnumber : ∀ n < 256, Path.isName ("result_" ++ toString n) = true := by decide +kernel
  exact hnumber e.number.toNat e.number.toNat_lt

theorem exists_lead_resultFolder (ctx : Context) : ∃ origin front, ∀ e,
    Path.start (ctx.resultFolder e) = origin ∧
      Path.components (ctx.resultFolder e) = front ++ [e.folder] := by
  have hroot : ∃ root, ∀ e, ctx.resultFolder e = Path.join root e.folder := by
    unfold Context.resultFolder
    cases ctx.source with
    | precomputed => exact ⟨_, fun e => rfl⟩
    | fresh => exact ⟨_, fun e => rfl⟩
  obtain ⟨root, hroot⟩ := hroot
  obtain ⟨origin, front, hlead⟩ := Path.exists_lead root
  refine ⟨origin, front, fun e => ?_⟩
  rw [hroot]
  exact hlead e.folder (isName_folder e)

section Beside

variable {ctx : Context} {a b : Evaluation} {t : FileTree} {folder other : Location}

/-- The folders of two evaluations lie beside each other.  Wherever the way to the one is open,
the other is there as soon as it is a folder. -/
theorem inputFolder?_beside (h : inputFolder? ctx a t = some folder) (b : Evaluation) :
    ∃ root, folder = a.folder :: root ∧ ∃ place : Option Location,
      (∀ l, place = some l → l = b.folder :: root) ∧
        ∀ u : FileTree, u.HasFolder (ctx.resultFolder a) folder →
          inputFolder? ctx b u = place.filter u.isFolder := by
  obtain ⟨origin, front, hpath⟩ := exists_lead_resultFolder ctx
  have hlead := FileTree.lead?_of_walk? (hasFolder_of_inputFolder? h).walk
  rw [(hpath a).1, (hpath a).2, Path.lead?_append] at hlead
  obtain ⟨root, hroot, hstep⟩ := Option.bind_eq_some_iff.1 hlead
  obtain ⟨next, hnext, hstep⟩ := Option.bind_eq_some_iff.1 hstep
  cases hstep
  have hlast : ∀ (e : Evaluation) (l : Location), Path.step? root e.folder = some l →
      l = e.folder :: root := by
    intro e l hl
    rw [Path.step?_of_isName (isName_folder e)] at hl
    split at hl
    · cases hl
      rfl
    · cases hl
  refine ⟨root, hlast a folder hnext, if (ctx.resultFolder b).isEmpty ||
    !Path.isUsable (ctx.resultFolder b) then none else Path.step? root b.folder, ?_, ?_⟩
  · intro l hl
    split at hl
    · cases hl
    · exact hlast b l hl
  · intro u hu
    have hvisited : ∀ l ∈ origin :: Path.visits origin front, u.isFolder l = true := by
      intro l hl
      refine hu.visited_folders l ?_
      unfold Path.visited
      rw [(hpath a).1, (hpath a).2, Path.visits_append hroot, ← List.cons_append]
      exact List.mem_append_left _ hl
    have hopen : u.isFolder root = true := hvisited root (Path.mem_visits_of_lead? hroot)
    unfold inputFolder? FileTree.locate?
    split
    · rfl
    · rw [(hpath b).1, (hpath b).2, FileTree.walk?_append, FileTree.walk?_of_folders hvisited,
        hroot, Option.bind_some, FileTree.walk?, if_pos hopen]
      cases Path.step? root b.folder <;> rfl

/-- No location lies in the folders of two evaluations. -/
theorem not_suffix_of_ne (ha : inputFolder? ctx a t = some folder)
    (hb : inputFolder? ctx b t = some other) (hne : a.folder ≠ b.folder) {l : Location}
    (hl : folder <:+ l) : ¬ other <:+ l := by
  intro hl'
  obtain ⟨root, rfl, place, hplace, hothers⟩ := inputFolder?_beside ha b
  rw [hothers t (hasFolder_of_inputFolder? ha)] at hb
  obtain rfl := hplace other (Option.filter_eq_some_iff.1 hb).1
  have hsame := List.suffix_of_suffix_length_le hl hl' (by simp)
  have heq := hsame.eq_of_length (by simp)
  exact hne (List.cons.inj heq).1

end Beside

/-! ## One run among others -/

/-- The folder in which a bundle is written is there afterwards, whether or not it can be
written. -/
theorem Bundle.hasFolder_of_writeTo {b : Bundle} {t : FileTree} {base name : String}
    {parent : Location} (h : t.HasFolder base parent) (hname : Path.isName name = true)
    (hopen : Path.endsOpen name = true) (hsize : name.utf8ByteSize ≤ Path.maxNameBytes)
    (hfiles : ∀ f ∈ b.files, Path.isName f.1 = true) :
    (b.writeTo (Path.join base name) t).1.HasFolder base parent := by
  rcases b.writeTo_cases h hname hsize with
    ⟨-, hwrite⟩ | ⟨-, -, hwrite⟩ | ⟨hcan, -, t', hnew, hwrite⟩
  · rw [hwrite]
    exact h
  · rw [hwrite]
    exact h
  · rw [hwrite]
    have hlead := FileTree.lead?_of_walk? h.walk
    have hfolder := h.of_renewed hname hopen hcan hnew
    refine .of_visited h.endsOpen hlead fun l hl => ?_
    rw [(hfolder.writeFiles_frame hfiles).1]
    refine hfolder.visited_folders l ?_
    rw [Path.visited_join h.endsOpen hname hlead hsize]
    exact List.mem_append_left _ hl

section Run

variable {ctx : Context} {a b e : Evaluation} {now : String} {t u : FileTree}

/-- The files that are prepared have names in a tree that agrees with one of plain names. -/
theorem AgreeFor.isName_of_prepare (ht : t.PlainNames) (h : AgreeFor ctx e t u) {p : Prepared}
    (hp : prepare ctx e now u = .ok p) : ∀ f ∈ p.bundle.files, Path.isName f.1 = true := by
  rw [prepare_retimed now now h.collect_eq] at hp
  obtain ⟨p', hp', rfl⟩ := map_eq_ok hp
  exact Bundle.forall_files_at (P := fun name => Path.isName name = true) now
    (names_of_prepare ht hp').2

/-- Without the folder of its results a run leaves the tree as it is. -/
theorem run_missing (h : inputFolder? ctx e u = none) : (run ctx e now u).1 = u := by
  unfold run
  cases hp : prepare ctx e now u with
  | error stop => rfl
  | ok p =>
    obtain ⟨folder, hfolder⟩ := inputFolder?_of_collect (prepare_eq_ok hp).1
    rw [h] at hfolder
    cases hfolder

/-- A run changes nothing outside of its output folder, and leaves the way to it open. -/
theorem run_frame (now : String) (ht : t.PlainNames) (h : AgreeFor ctx e t u) {folder : Location}
    (hfolder : inputFolder? ctx e u = some folder) :
    (∀ l, ¬ outputLocation e folder <:+ l → (run ctx e now u).1.nodeAt? l = u.nodeAt? l) ∧
      (run ctx e now u).1.HasFolder (ctx.resultFolder e) folder := by
  have hbase := hasFolder_of_inputFolder? hfolder
  unfold run
  cases hp : prepare ctx e now u with
  | error stop => exact ⟨fun l _ => rfl, hbase⟩
  | ok p =>
    obtain ⟨hname, hopen, hsize⟩ := outputFolder_isName e
    have hfiles := h.isName_of_prepare ht hp
    exact ⟨Bundle.outside_of_writeTo hbase hname hopen hsize hfiles,
      Bundle.hasFolder_of_writeTo hbase hname hopen hsize hfiles⟩

/-- A run leaves the folder of another evaluation as it was. -/
theorem agreeFor_of_run (now : String) (ht : t.PlainNames) (h : AgreeFor ctx a t u)
    (hne : a.folder ≠ b.folder) : AgreeFor ctx b u (run ctx a now u).1 := by
  cases ha : inputFolder? ctx a u with
  | none =>
    rw [run_missing ha]
    exact .refl ctx b u
  | some folder =>
    obtain ⟨houtside, hopen⟩ := run_frame now ht h ha
    obtain ⟨root, rfl, place, hplace, hothers⟩ := inputFolder?_beside ha b
    have hnode : ∀ l, (b.folder :: root) <:+ l →
        (run ctx a now u).1.nodeAt? l = u.nodeAt? l := by
      intro l hl
      refine houtside l fun houtput => hne ?_
      have hinside : (a.folder :: root) <:+ l := (List.suffix_cons _ _).trans houtput
      have hsame := List.suffix_of_suffix_length_le hinside hl (by simp)
      exact (List.cons.inj (hsame.eq_of_length (by simp))).1
    have hfilter : place.filter (run ctx a now u).1.isFolder = place.filter u.isFolder := by
      cases hl : place with
      | none => rfl
      | some l =>
        have hfolder : (run ctx a now u).1.isFolder l = u.isFolder l := by
          unfold FileTree.isFolder
          rw [hnode l (hplace l hl ▸ List.suffix_refl _)]
        rw [Option.filter_some, Option.filter_some, hfolder]
    refine ⟨?_, fun folder hfolder l hl => ?_⟩
    · rw [hothers _ hopen, hothers u (hasFolder_of_inputFolder? ha), hfilter]
    · rw [hothers u (hasFolder_of_inputFolder? ha)] at hfolder
      rw [hplace folder (Option.filter_eq_some_iff.1 hfolder).1] at hl
      exact hnode l hl

end Run

/-! ## Several runs -/

/-- The evaluation with what it reports, unless the program ends. -/
def outcome? (ctx : Context) (now : String) (t : FileTree) (e : Evaluation) :
    Option (Evaluation × Except Fault RunReport) :=
  match (run ctx e now t).2 with
  | .error .tooManyPlaces => none
  | .error (.fault fault) => some (e, .error fault)
  | .ok report => some (e, .ok report)

/-- A tree holds what each of several runs alone would have left of a tree in the folder of its
results, and outside of their output folders what is in a tree that they started from. -/
structure Merges (ctx : Context) (now : String) (t u : FileTree) (es : List Evaluation)
    (merged : FileTree) : Prop where
  inside : ∀ e ∈ es, ∀ folder, inputFolder? ctx e t = some folder →
    ∀ l, folder <:+ l → merged.nodeAt? l = (run ctx e now t).1.nodeAt? l
  outside : ∀ l, (∀ e ∈ es, ∀ folder, inputFolder? ctx e t = some folder →
    ¬ outputLocation e folder <:+ l) → merged.nodeAt? l = u.nodeAt? l

section Runs

variable {ctx : Context} {now : String} {t u : FileTree} {e : Evaluation}

theorem runEach_cons (ctx : Context) (now : String) (t : FileTree) (e : Evaluation)
    (rest : List Evaluation) :
    runEach ctx now t (e :: rest) =
      match outcome? ctx now t e with
      | none => ((run ctx e now t).1, none)
      | some x =>
        ((runEach ctx now (run ctx e now t).1 rest).1,
          (runEach ctx now (run ctx e now t).1 rest).2.map (x :: ·)) := by
  rw [runEach]
  unfold outcome?
  cases hrun : run ctx e now t with
  | mk t' outcome =>
    cases outcome with
    | ok report => rfl
    | error stop =>
      cases stop with
      | fault fault => rfl
      | tooManyPlaces => rfl

/-- The program ends before a run has written anything. -/
theorem run_of_outcome?_eq_none (h : outcome? ctx now t e = none) : (run ctx e now t).1 = t := by
  unfold outcome? at h
  split at h
  next hstop =>
    rcases failed_run_keeps_tree (Prod.ext rfl hstop) with ⟨-, -, hkept⟩ | ⟨-, hrefusal, -⟩
    · exact hkept
    · cases hrefusal
  next => cases h
  next => cases h

theorem outcome?_congr (ht : t.PlainNames) (h : AgreeFor ctx e t u) :
    outcome? ctx now u e = outcome? ctx now t e := by
  have hat : ∀ r : RunReport, (run ctx e now t).2 = .ok r → r.at now = r := by
    intro r hr
    obtain ⟨p, paths, hp, -, rfl⟩ := run_eq_ok (Prod.ext rfl hr)
    have hcreated := createdAt_of_prepare hp
    show { p.report ctx e paths with summary := p.bundle.summary.at now } = _
    unfold ScalarSummary.at
    rw [← hcreated]
    rfl
  unfold outcome?
  rw [(run_retimed now now ht h).1]
  cases hrun : (run ctx e now t).2 with
  | error stop => rfl
  | ok r =>
    show some (e, Except.ok (r.at now)) = some (e, Except.ok r)
    rw [hat r hrun]

/-- Several runs report what each of them reports alone on the tree at first, and leave what each
of them leaves alone, up to the one that ends the program. -/
theorem runEach_spec (now : String) (ht : t.PlainNames) {es : List Evaluation}
    (hdistinct : (es.map Evaluation.folder).Nodup) (hagree : ∀ e ∈ es, AgreeFor ctx e t u) :
    (runEach ctx now u es).2 = es.mapM (outcome? ctx now t) ∧
      Merges ctx now t u (es.takeWhile fun e => (outcome? ctx now t e).isSome)
        (runEach ctx now u es).1 := by
  induction es generalizing u with
  | nil => exact ⟨rfl, nofun, fun _ _ => rfl⟩
  | cons e rest ih =>
    rw [List.forall_mem_cons] at hagree
    obtain ⟨hagree, hrest⟩ := hagree
    rw [List.map_cons, List.nodup_cons] at hdistinct
    have hne : ∀ e' ∈ rest, e.folder ≠ e'.folder := by
      intro e' he' heq
      exact hdistinct.1 (heq ▸ List.mem_map_of_mem he')
    rw [runEach_cons, outcome?_congr ht hagree, List.mapM_cons]
    cases houtcome : outcome? ctx now t e with
    | none =>
      rw [List.takeWhile_cons_of_neg (by simp [houtcome])]
      refine ⟨rfl, nofun, fun l _ => ?_⟩
      rw [run_of_outcome?_eq_none ((outcome?_congr ht hagree).trans houtcome)]
    | some x =>
      obtain ⟨hresults, hinside, houtside⟩ := ih hdistinct.2 fun e' he' =>
        (hrest e' he').trans (agreeFor_of_run now ht hagree (hne e' he'))
      rw [List.takeWhile_cons_of_pos (by simp [houtcome])]
      have hdone : ∀ e' ∈ rest.takeWhile fun e => (outcome? ctx now t e).isSome, e' ∈ rest :=
        fun e' he' => (List.takeWhile_sublist _).subset he'
      refine ⟨?_, ?_, ?_⟩
      · show Option.map _ _ = _
        rw [hresults]
        cases rest.mapM (outcome? ctx now t) <;> rfl
      · rw [List.forall_mem_cons]
        refine ⟨fun folder hfolder l hl => ?_, hinside⟩
        -- what the first run has left is touched by none of the others
        have hkept := houtside l fun e' he' folder' hfolder' houtput =>
          not_suffix_of_ne hfolder hfolder' (hne e' (hdone e' he')) hl
            ((List.suffix_cons _ _).trans houtput)
        have halone := (run_retimed now now ht hagree).2 folder hfolder l hl
        exact hkept.trans (Node.retimed_self_iff.1 halone)
      · intro l hl
        rw [List.forall_mem_cons] at hl
        refine (houtside l hl.2).trans ?_
        cases hfolder : inputFolder? ctx e u with
        | none => rw [run_missing hfolder]
        | some folder =>
          exact (run_frame now ht hagree hfolder).1 l (hl.1 folder (hagree.input ▸ hfolder))

end Runs

end FigureData
