/-
  Nothing is lost between the files of an evaluation and the rows of its dataset.

  A file is taken in or skipped; an entity that was taken in is kept or left out; and a row is
  made of every entity that is kept.  Files and entities are counted by different loops, whose
  counts have to agree with what was there.

  Proved:
  * `Intake.counts_of_takeAll_ok`: an intake that ends well has counted or skipped every file.
  * `siftEntities_spec`: sifting parts the entities, each part in its order.
  * `discovery_of_takeIn`: entities are taken in in the order of their discovery.
  * `collect_accounts`: what a run reports accounts for every file and every entity.
-/
import FigureData.Proofs.Dataset.Figures
import FigureData.Proofs.Extraction.Numbering
import FigureData.Proofs.Run.InputFiles

namespace FigureData

open Outcome

/-! ## Files -/

/-- Whatever the policy, an intake that ends well has counted or skipped every file. -/
theorem Intake.counts_of_takeAll_ok {policy : FilePolicy} {s s' : Intake}
    {items : List (Except Fault Record)} (h : s.takeAll policy items = .ok s') :
    s'.inputFiles + s'.skipped.length = s.inputFiles + s.skipped.length + items.length := by
  cases policy with
  | skipAndWarn => exact counts_of_takeAll h
  | abort =>
    obtain ⟨hcount, hskipped, -⟩ := takeAll_abort h
    rw [hcount, hskipped]
    omega

/-! ## Entities -/

/-- Is the entity left out of the dataset? -/
def Entity.isLeftOut (d : Descriptor) (sentinel : Float) (e : Entity) : Bool :=
  match e.summarize d sentinel with
  | .ok (.dropped _ _) => true
  | _ => false

section Entities

variable {d : Descriptor} {sentinel : Float} {entities : List Entity}

/-- An entity is left out under its own identifier. -/
theorem Entity.isLeftOut_of_dropped {e : Entity} {id : String} {reason : Fault}
    (h : e.summarize d sentinel = .ok (.dropped id reason)) :
    e.isLeftOut d sentinel = true ∧ id = e.id := by
  constructor
  · unfold isLeftOut
    rw [h]
  · unfold summarize at h
    split at h
    · cases h
    · split at h
      · cases h
      · cases h
        rfl

/-- Sifting parts the entities, each part in its order. -/
theorem siftEntities_spec {sifted : Sifted} (h : siftEntities d sentinel entities = .ok sifted) :
    sifted.dropped = (entities.filter (Entity.isLeftOut d sentinel)).map Entity.id ∧
      sifted.kept.map EntitySummary.id =
        (entities.filter fun e => !e.isLeftOut d sentinel).map Entity.id := by
  induction entities generalizing sifted with
  | nil =>
    cases h
    exact ⟨rfl, rfl⟩
  | cons entity rest ih =>
    rw [siftEntities_cons] at h
    obtain ⟨outcome, houtcome, h⟩ := bind_eq_ok h
    cases outcome with
    | kept summary =>
      obtain ⟨more, hmore, h⟩ := bind_eq_ok h
      cases h
      obtain ⟨hdropped, hkept⟩ := ih hmore
      have hstays : entity.isLeftOut d sentinel = false := by
        unfold Entity.isLeftOut
        rw [houtcome]
      rw [List.filter_cons_of_neg (by simp [hstays]), List.filter_cons_of_pos (by simp [hstays]),
        List.map_cons, List.map_cons, hkept, (Entity.summarize_kept_fields houtcome).1]
      exact ⟨hdropped, rfl⟩
    | dropped id reason =>
      obtain ⟨more, hmore, h⟩ := bind_eq_ok h
      cases h
      obtain ⟨hdropped, hkept⟩ := ih hmore
      obtain ⟨hleft, rfl⟩ := Entity.isLeftOut_of_dropped houtcome
      rw [List.filter_cons_of_pos hleft, List.filter_cons_of_neg (by simp [hleft]),
        List.map_cons, hdropped]
      exact ⟨rfl, hkept⟩

end Entities

/-- Entities are taken in in the order of their discovery. -/
theorem discovery_of_takeIn {ctx : Context} {e : Evaluation} {t : FileTree} {intake : Intake}
    {entities : List Entity} (h : takeIn ctx e t = .ok (intake, entities)) :
    entities.Pairwise fun a b => a.discovery < b.discovery := by
  obtain ⟨hintake, hcollected⟩ := takeIn_spec h
  have hstart : Entity.IsNumbered (Extractor.ofDescriptor e.descriptor).entities := by
    rw [← Extractor.fresh_ofDescriptor]
    exact Extractor.isNumbered_fresh _
  have hnumbered := Intake.takeAll_induction (P := fun x => Entity.IsNumbered x.entities) hstart
    (fun _ _ _ _ hx hy => Extractor.isNumbered_ingest hx hy) hintake
  rw [Extractor.eq_entities_of_collected hcollected]
  exact hnumbered.pairwise

/-! ## Runs -/

/-- What a run reports accounts for the files that were there and the entities found in them. -/
structure Collected.AccountsFor (c : Collected) (files : List (String × Bytes))
    (entities : List Entity) : Prop where
  files : c.provenance.inputFiles + c.skippedFiles.length = files.length
  ids : (c.dataset.rows.map Row.id ++ c.droppedEntities).Perm (entities.map Entity.id)
  /-- Those left out are listed in the order of their discovery. -/
  inOrder : ∃ left : List Entity, left.Sublist entities ∧
    c.droppedEntities = left.map Entity.id ∧ left.Pairwise fun a b => a.discovery < b.discovery
  counted : c.provenance.droppedEntities = c.droppedEntities.length

/-- What a run reports accounts for every file that it reads and for every entity that its
extractor has returned. -/
theorem collect_accounts {ctx : Context} {e : Evaluation} {t : FileTree} {c : Collected}
    (h : collect ctx e t = .ok c) :
    ∃ intake entities, takeIn ctx e t = .ok (intake, entities) ∧
      intake.extractor.collected = .ok entities ∧
      c.AccountsFor (matchingFiles ctx e t) entities := by
  rw [collect_eq] at h
  obtain ⟨⟨intake, entities⟩, htake, h⟩ := bind_eq_ok h
  obtain ⟨hintake, hcollected⟩ := takeIn_spec htake
  obtain ⟨hskipped, hinput⟩ := evaluate_fields h
  obtain ⟨sifted, hsifted, hdataset, hdropped, hcount⟩ := evaluate_eq_ok h
  obtain ⟨hleft, hkept⟩ := siftEntities_spec hsifted
  obtain ⟨l, hl, -⟩ := exists_loader ctx e
  refine ⟨intake, entities, htake, hcollected, ?_, ?_, ?_, ?_⟩
  · have hcounts := Intake.counts_of_takeAll_ok hintake
    rw [inputItems_eq hl, List.length_map] at hcounts
    rw [hinput, hskipped, hcounts]
    exact Nat.zero_add _
  · obtain ⟨ordered, hordered, -, hrows⟩ := Dataset.ofDescriptor_eq_ok hdataset
    have hids : (c.dataset.rows.map Row.id).Perm
        ((entities.filter fun e' => !e'.isLeftOut e.descriptor ctx.ratioSentinel).map
          Entity.id) := by
      rw [hrows, map_id_rowsOf, ← hkept]
      exact hordered.map _
    have hparts := (List.filter_append_perm
      (Entity.isLeftOut e.descriptor ctx.ratioSentinel) entities).map Entity.id
    rw [List.map_append] at hparts
    rw [hdropped, hleft]
    exact ((hids.append_right _).trans List.perm_append_comm).trans hparts
  · refine ⟨entities.filter (Entity.isLeftOut e.descriptor ctx.ratioSentinel),
      List.filter_sublist, hdropped.trans hleft, ?_⟩
    exact (discovery_of_takeIn htake).filter _
  · rw [hcount, hdropped]

/-- Times of one network, with the times of the tree as they are. -/
def timesText (tree : String) : String :=
  "\x7b\"num_commands\":3,\"random_result\":[],\"tree_result\":[\x7b\"time\":" ++ tree ++
    "\x7d],\"strategy_result\":[\x7b\"time\":1\x7d]\x7d"

/-- Three files: of the first a row is made, the second is skipped, and the network of the third
is left out. -/
def sortedOutRun : FileTree :=
  resultTree .schedulingTime [("a.json", .ofText (timesText "2")), ("b.json", .ofText "?"),
    ("c.json", .ofText (timesText "null"))]

theorem sortedOutRun_accounts :
    ∃ c intake entities, collect freshContext .schedulingTime sortedOutRun = .ok c ∧
      takeIn freshContext .schedulingTime sortedOutRun = .ok (intake, entities) ∧
      c.skippedFiles = ["b.json"] ∧ c.droppedEntities = ["c"] ∧
      c.AccountsFor (matchingFiles freshContext .schedulingTime sortedOutRun) entities := by
  have hrun : (collect freshContext .schedulingTime sortedOutRun).toOption.any
      (fun c => decide (c.skippedFiles = ["b.json"] ∧ c.droppedEntities = ["c"])) = true := by
    decide +kernel
  obtain ⟨c, hcollect, htest⟩ := exists_of_any hrun
  obtain ⟨hskipped, hdropped⟩ := of_decide_eq_true htest
  obtain ⟨intake, entities, htake, -, haccounts⟩ := collect_accounts hcollect
  exact ⟨c, intake, entities, hcollect, htake, hskipped, hdropped, haccounts⟩

end FigureData
