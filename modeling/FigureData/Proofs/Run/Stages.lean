/-
  The two stages of a run: taking files in, and evaluating the entities found.

  Proved:
  * `collect_eq`: a run is the two stages, one after the other.
  * `takeIn_enters`: the entities taken in are the contributions of the files.
  * `takeIn_strategies`: what all contributions keep holds of the entities taken in.
  * `takeIn_listed`: where entities are listed file by file, what every file gives holds of them.
  * `keys_of_shared`: where every file holds all strategies, every entity has a sample of each.
  * `siftEntities_error`: a fault while sifting is the fault of an entity.
  * `mem_kept`: what is kept is the summary of an entity, and `kept_of_policies`: where none may
    be left out, all are kept.
  * `evaluate_eq_ok_iff`: the second stage ends well exactly when no entity stops the run.
  * `evaluate_skipped`: the names of the skipped files are handed through.
-/
import FigureData.Proofs.Dataset.Build
import FigureData.Proofs.Entity.Policies
import FigureData.Proofs.Run.Intake
import FigureData.Run.Collected

namespace FigureData

open Outcome

/-! ## Stages -/

/-- The first stage: what has been taken in, and the entities in it. -/
def takeIn (ctx : Context) (e : Evaluation) (t : FileTree) :
    Except Fault (Intake × List Entity) := do
  let loader ← Loader.ofDescriptor (ctx.resultFolder e) e.descriptor
  let items ← loader.records t
  let start : Intake := { extractor := .ofDescriptor e.descriptor }
  let intake ← e.inContext (start.takeAll e.descriptor.filePolicy items)
  let entities ← e.inContext intake.extractor.collected
  return (intake, entities)

/-- The second stage: the dataset of the entities. -/
def evaluate (ctx : Context) (e : Evaluation) (intake : Intake) (entities : List Entity) :
    Except Fault Collected := do
  let sifted ← e.inContext (siftEntities e.descriptor ctx.ratioSentinel entities)
  let dataset ← Dataset.ofDescriptor e.descriptor sifted.kept
  return {
    dataset
    provenance := provenanceOf ctx e intake.inputFiles sifted.dropped.length
    skippedFiles := intake.skipped
    droppedEntities := sifted.dropped }

/-- A run is the two stages, one after the other. -/
theorem collect_eq (ctx : Context) (e : Evaluation) (t : FileTree) :
    collect ctx e t = takeIn ctx e t >>= fun x => evaluate ctx e x.1 x.2 := by
  unfold collect takeIn evaluate
  simp only [bind_assoc, pure_bind]

section InContext

variable {α : Type} {e : Evaluation} {outcome : Except Fault α}

theorem inContext_eq_ok_iff {a : α} : e.inContext outcome = .ok a ↔ outcome = .ok a := by
  cases outcome with
  | ok b => exact Iff.rfl
  | error fault =>
    constructor
    · intro h
      cases h
    · intro h
      cases h

end InContext

/-! ## Files -/

/-- The outcomes of the files that an evaluation reads. -/
def inputItems (ctx : Context) (e : Evaluation) (t : FileTree) : List (Except Fault Record) :=
  match Loader.ofDescriptor (ctx.resultFolder e) e.descriptor >>= fun l => l.records t with
  | .ok items => items
  | .error _ => []

/-- Where the first stage ends well, its intake is that of the files read. -/
theorem takeIn_spec {ctx : Context} {e : Evaluation} {t : FileTree} {intake : Intake}
    {entities : List Entity} (h : takeIn ctx e t = .ok (intake, entities)) :
    Intake.takeAll e.descriptor.filePolicy { extractor := .ofDescriptor e.descriptor }
        (inputItems ctx e t) = .ok intake ∧
      intake.extractor.collected = .ok entities := by
  unfold takeIn at h
  obtain ⟨loader, hloader, h⟩ := bind_eq_ok h
  obtain ⟨items, hitems, h⟩ := bind_eq_ok h
  obtain ⟨intake', hintake, h⟩ := bind_eq_ok h
  obtain ⟨entities', hentities, h⟩ := bind_eq_ok h
  cases h
  have hread : inputItems ctx e t = items := by
    unfold inputItems
    rw [hloader]
    show (match loader.records t with | .ok items => items | .error _ => []) = items
    rw [hitems]
  rw [hread]
  exact ⟨inContext_eq_ok_iff.1 hintake, inContext_eq_ok_iff.1 hentities⟩

/-- A context for fresh results in the folder `r`. -/
def freshContext : Context := ⟨{ root := "r" }, .fresh⟩

/-- A tree with the folder of the fresh results of an evaluation and files in it. -/
def resultTree (e : Evaluation) (files : List (String × Bytes)) : FileTree :=
  let folders := ((∅ : FileTree).makeFolder? "r" []).bind fun t => t.makeFolder? e.folder ["r"]
  let full := files.foldl
    (fun t f => t.bind fun t => t.writeFile? f.1 [e.folder, "r"] f.2) folders
  full.getD ∅

/-- The entities that are taken in are the contributions of the files, entered one after the
other, and none of them is incomplete. -/
theorem takeIn_enters {ctx : Context} {e : Evaluation} {t : FileTree} {intake : Intake}
    {entities : List Entity} {rules : Extraction.StrategyRules}
    (hrules : Extractor.ofDescriptor e.descriptor = .strategies rules ∅)
    (h : takeIn ctx e t = .ok (intake, entities)) :
    entities = (Extraction.enterAll
        ((inputItems ctx e t).filterMap rules.contribution?) ∅).values ∧
      ∀ entity ∈ entities, ∀ s ∈ rules.strategies, s.fileSuffix ≠ none →
        entity.samples.contains s.label = true := by
  obtain ⟨hintake, hcollected⟩ := takeIn_spec h
  have hextractor := Intake.takeAll_enters (s := { extractor := .ofDescriptor e.descriptor })
    hrules hintake
  rw [hextractor] at hcollected
  obtain ⟨rfl, hcomplete⟩ := Extraction.StrategyRules.complete_spec hcollected
  exact ⟨rfl, hcomplete⟩

/-- An entity that is taken in is found under its identifier. -/
theorem find?_of_mem_values {contributions : List Extraction.Contribution} {entity : Entity}
    (h : entity ∈ (Extraction.enterAll contributions ∅).values) :
    (Extraction.enterAll contributions ∅).find? entity.id = some entity := by
  obtain ⟨⟨key, e⟩, hmem, rfl⟩ := List.mem_map.1 h
  obtain rfl : e.id = key := Extraction.id_of_mem_enterAll hmem
  exact OrderedMap.find?_eq_some_iff.2 hmem

/-- What all contributions keep holds of the entities that are taken in. -/
theorem takeIn_strategies {ctx : Context} {e : Evaluation} {t : FileTree} {intake : Intake}
    {entities : List Entity} (rules : Extraction.StrategyRules) {P : Entity → Prop}
    (hrules : Extractor.ofDescriptor e.descriptor = .strategies rules ∅)
    (hstep : ∀ r c, .ok r ∈ inputItems ctx e t → rules.read r = .ok (some c) →
      (∀ i, P (c.addTo { id := c.id, discovery := i })) ∧ ∀ entity, P entity → P (c.addTo entity))
    (h : takeIn ctx e t = .ok (intake, entities)) : ∀ entity ∈ entities, P entity := by
  obtain ⟨rfl, -⟩ := takeIn_enters hrules h
  refine Extraction.enterAll_induction (P := fun m => ∀ entity ∈ m.values, P entity) ?_ ?_
  · intro c hc m hm
    obtain ⟨item, hitem, hc⟩ := List.mem_filterMap.1 hc
    obtain ⟨r, rfl, hr⟩ := Extraction.StrategyRules.contribution?_eq_some_iff.1 hc
    obtain ⟨hnew, hadd⟩ := hstep r c hitem hr
    exact Extraction.Contribution.forall_enter hm hnew hadd
  · intro entity hentity
    exact absurd hentity List.not_mem_nil

/-- What does not depend on their numbers holds of entities that extend others, too. -/
theorem Entity.forall_extend {P : Entity → Prop}
    (hdiscovery : ∀ entity i, P entity → P { entity with discovery := i })
    {entities more : List Entity} (hentities : ∀ entity ∈ entities, P entity)
    (hmore : ∀ entity ∈ more, P entity) : ∀ entity ∈ Entity.extend entities more, P entity := by
  refine List.forall_mem_append.2 ⟨hentities, ?_⟩
  intro entity hentity
  obtain ⟨⟨old, i⟩, hold, rfl⟩ := List.mem_map.1 hentity
  exact hdiscovery old i (hmore old (List.fst_mem_of_mem_zipIdx hold))

/-- An extractor that lists the entities of one file after those of the other has taken in what
every file gives. -/
theorem takeIn_listed {ctx : Context} {e : Evaluation} {t : FileTree} {intake : Intake}
    {entities : List Entity} (listed : List Entity → Extractor)
    (read : Record → Except Fault (List Entity)) {P : Entity → Prop}
    (hstart : Extractor.ofDescriptor e.descriptor = listed [])
    (hingest : ∀ es r,
      (listed es).ingest r = (read r).map fun more => listed (Entity.extend es more))
    (hcollected : ∀ es, (listed es).collected = .ok es)
    (hread : ∀ r more, .ok r ∈ inputItems ctx e t → read r = .ok more → ∀ entity ∈ more, P entity)
    (hdiscovery : ∀ entity i, P entity → P { entity with discovery := i })
    (h : takeIn ctx e t = .ok (intake, entities)) : ∀ entity ∈ entities, P entity := by
  obtain ⟨hintake, hentities⟩ := takeIn_spec h
  obtain ⟨es, hextractor, hes⟩ := Intake.takeAll_induction
    (P := fun x => ∃ es, x = listed es ∧ ∀ entity ∈ es, P entity)
    ⟨[], hstart, nofun⟩ (by
      rintro r x y hr ⟨es, rfl, hes⟩ hy
      rw [hingest] at hy
      obtain ⟨more, hmore, rfl⟩ := map_eq_ok hy
      exact ⟨Entity.extend es more, rfl,
        Entity.forall_extend hdiscovery hes (hread r more hr hmore)⟩) hintake
  rw [hextractor, hcollected] at hentities
  cases hentities
  exact hes

/-- Where every file holds all strategies, every entity has a sample of each, in the order in
which they are declared. -/
theorem keys_of_shared {ctx : Context} {e : Evaluation} {t : FileTree} {intake : Intake}
    {entities : List Entity} (rules : Extraction.StrategyRules)
    (hrules : Extractor.ofDescriptor e.descriptor = .strategies rules ∅)
    (hshared : ∀ s ∈ rules.strategies, s.fileSuffix = none)
    (hnodup : (rules.strategies.map Strategy.label).Nodup)
    (h : takeIn ctx e t = .ok (intake, entities)) :
    ∀ entity ∈ entities, entity.samples.keys = rules.strategies.map Strategy.label := by
  refine takeIn_strategies rules hrules ?_ h
  intro r c _ hc
  obtain ⟨j, -, hread⟩ := Extraction.StrategyRules.read_spec hc
  have hlabels : c.samples.map Prod.fst = rules.strategies.map Strategy.label := by
    rw [Extraction.labels_of_forall₂ hread, Extraction.StrategyRules.held_eq hshared]
  exact ⟨Extraction.keys_addTo_new hlabels hnodup _,
    fun entity hkeys => Extraction.keys_addTo hlabels hkeys⟩

/-! ## Sifting -/

section Sift

variable {d : Descriptor} {sentinel : Float} {entities : List Entity}

theorem siftEntities_cons (entity : Entity) (rest : List Entity) :
    siftEntities d sentinel (entity :: rest) =
      entity.summarize d sentinel >>= fun outcome =>
        match outcome with
        | .kept summary => do
          let more ← siftEntities d sentinel rest
          return { more with kept := summary :: more.kept }
        | .dropped id _ => do
          let more ← siftEntities d sentinel rest
          return { more with dropped := id :: more.dropped } := rfl

/-- A fault while sifting is the fault of an entity. -/
theorem siftEntities_error {fault : Fault} (h : siftEntities d sentinel entities = .error fault) :
    ∃ entity ∈ entities, entity.summarize d sentinel = .error fault := by
  induction entities with
  | nil => cases h
  | cons entity rest ih =>
    rw [siftEntities_cons] at h
    rcases bind_eq_error h with h | ⟨outcome, -, h⟩
    · exact ⟨entity, List.mem_cons_self .., h⟩
    · have hrest : siftEntities d sentinel rest = .error fault := by
        cases outcome with
        | kept summary =>
          rcases bind_eq_error h with h | ⟨more, -, h⟩
          · exact h
          · cases h
        | dropped id reason =>
          rcases bind_eq_error h with h | ⟨more, -, h⟩
          · exact h
          · cases h
      obtain ⟨found, hfound, he⟩ := ih hrest
      exact ⟨found, List.mem_cons_of_mem _ hfound, he⟩

/-- Where sifting ends well, every entity has an outcome. -/
theorem exists_outcome {sifted : Sifted} (h : siftEntities d sentinel entities = .ok sifted) :
    ∀ entity ∈ entities, ∃ outcome, entity.summarize d sentinel = .ok outcome := by
  induction entities generalizing sifted with
  | nil => simp
  | cons entity rest ih =>
    rw [siftEntities_cons] at h
    obtain ⟨outcome, houtcome, h⟩ := bind_eq_ok h
    obtain ⟨more, hmore⟩ : ∃ more, siftEntities d sentinel rest = .ok more := by
      cases outcome with
      | kept summary =>
        obtain ⟨more, hmore, -⟩ := bind_eq_ok h
        exact ⟨more, hmore⟩
      | dropped id reason =>
        obtain ⟨more, hmore, -⟩ := bind_eq_ok h
        exact ⟨more, hmore⟩
    rw [List.forall_mem_cons]
    exact ⟨⟨outcome, houtcome⟩, ih hmore⟩

/-- Where no entity may be left out, all are kept, in their order. -/
theorem kept_of_policies {sifted : Sifted} (h : siftEntities d sentinel entities = .ok sifted)
    (hpolicies : ∀ entity ∈ entities, ∀ x ∈ entity.samples.entries,
      d.missingPolicy x.1 ≠ .dropEntity) :
    sifted.dropped = [] ∧ List.Forall₂ (fun entity summary =>
      Entity.summarize entity d sentinel = .ok (.kept summary)) entities sifted.kept := by
  induction entities generalizing sifted with
  | nil =>
    cases h
    exact ⟨rfl, .nil⟩
  | cons entity rest ih =>
    rw [List.forall_mem_cons] at hpolicies
    rw [siftEntities_cons] at h
    obtain ⟨outcome, houtcome, h⟩ := bind_eq_ok h
    obtain ⟨summary, rfl⟩ := Entity.summarize_eq_kept houtcome hpolicies.1
    obtain ⟨more, hmore, h⟩ := bind_eq_ok h
    cases h
    obtain ⟨hdropped, hkept⟩ := ih hmore hpolicies.2
    exact ⟨hdropped, .cons houtcome hkept⟩

/-- What is kept is the summary of an entity. -/
theorem mem_kept {sifted : Sifted} (h : siftEntities d sentinel entities = .ok sifted)
    {summary : EntitySummary} (hs : summary ∈ sifted.kept) :
    ∃ entity ∈ entities, entity.summarize d sentinel = .ok (.kept summary) := by
  induction entities generalizing sifted with
  | nil =>
    cases h
    cases hs
  | cons entity rest ih =>
    rw [siftEntities_cons] at h
    obtain ⟨outcome, houtcome, h⟩ := bind_eq_ok h
    cases outcome with
    | kept first =>
      obtain ⟨more, hmore, h⟩ := bind_eq_ok h
      cases h
      rcases List.mem_cons.1 hs with rfl | hs
      · exact ⟨entity, List.mem_cons_self .., houtcome⟩
      · obtain ⟨found, hfound, he⟩ := ih hmore hs
        exact ⟨found, List.mem_cons_of_mem _ hfound, he⟩
    | dropped id reason =>
      obtain ⟨more, hmore, h⟩ := bind_eq_ok h
      cases h
      obtain ⟨found, hfound, he⟩ := ih hmore hs
      exact ⟨found, List.mem_cons_of_mem _ hfound, he⟩

end Sift

/-! ## Evaluation -/

/-- The second stage ends well exactly when no entity stops the run. -/
theorem evaluate_eq_ok_iff {ctx : Context} {e : Evaluation} (intake : Intake)
    (entities : List Entity) :
    (∃ c, evaluate ctx e intake entities = .ok c) ↔
      ∀ entity ∈ entities, ∃ outcome,
        entity.summarize e.descriptor ctx.ratioSentinel = .ok outcome := by
  unfold evaluate
  constructor
  · rintro ⟨c, hc⟩
    obtain ⟨sifted, hsifted, -⟩ := bind_eq_ok hc
    exact exists_outcome (inContext_eq_ok_iff.1 hsifted)
  · intro h
    cases hsift : siftEntities e.descriptor ctx.ratioSentinel entities with
    | error fault =>
      obtain ⟨entity, hentity, hfault⟩ := siftEntities_error hsift
      obtain ⟨outcome, houtcome⟩ := h entity hentity
      rw [hfault] at houtcome
      cases houtcome
    | ok sifted =>
      obtain ⟨-, -, complete, -, -, -, hdataset⟩ :=
        Dataset.ofDescriptor_spec (namesColumns_descriptor e) sifted.kept
      rw [inContext_eq_ok_iff.2 rfl]
      show ∃ c, (Dataset.ofDescriptor e.descriptor sifted.kept >>= _) = .ok c
      rw [hdataset]
      exact ⟨_, rfl⟩

/-- The second stage reports what the first has counted and skipped. -/
theorem evaluate_fields {ctx : Context} {e : Evaluation} {intake : Intake}
    {entities : List Entity} {c : Collected} (h : evaluate ctx e intake entities = .ok c) :
    c.skippedFiles = intake.skipped ∧ c.provenance.inputFiles = intake.inputFiles := by
  unfold evaluate at h
  obtain ⟨sifted, -, h⟩ := bind_eq_ok h
  obtain ⟨dataset, -, h⟩ := bind_eq_ok h
  cases h
  exact ⟨rfl, rfl⟩

/-- The names of the skipped files are handed through. -/
theorem evaluate_skipped (ctx : Context) (e : Evaluation) (intake : Intake)
    (entities : List Entity) (names : List String) :
    evaluate ctx e { intake with skipped := names } entities =
      (evaluate ctx e intake entities).map fun c => { c with skippedFiles := names } := by
  unfold evaluate
  cases e.inContext (siftEntities e.descriptor ctx.ratioSentinel entities) with
  | error fault => rfl
  | ok sifted =>
    show (Dataset.ofDescriptor e.descriptor sifted.kept >>= _) =
      (Dataset.ofDescriptor e.descriptor sifted.kept >>= _).map _
    cases Dataset.ofDescriptor e.descriptor sifted.kept with
    | error fault => rfl
    | ok dataset => rfl

/-- Where the second stage ends well, its dataset is that of the networks kept. -/
theorem evaluate_eq_ok {ctx : Context} {e : Evaluation} {intake : Intake} {entities : List Entity}
    {c : Collected} (h : evaluate ctx e intake entities = .ok c) :
    ∃ sifted, siftEntities e.descriptor ctx.ratioSentinel entities = .ok sifted ∧
      Dataset.ofDescriptor e.descriptor sifted.kept = .ok c.dataset ∧
      c.droppedEntities = sifted.dropped ∧
      c.provenance.droppedEntities = sifted.dropped.length := by
  unfold evaluate at h
  obtain ⟨sifted, hsifted, h⟩ := bind_eq_ok h
  obtain ⟨dataset, hdataset, h⟩ := bind_eq_ok h
  cases h
  exact ⟨sifted, inContext_eq_ok_iff.1 hsifted, hdataset, rfl, rfl⟩

/-- Where a run ends well, its dataset is that of the networks kept, which are entities that
were taken in. -/
theorem collect_eq_ok {ctx : Context} {e : Evaluation} {t : FileTree} {c : Collected}
    (h : collect ctx e t = .ok c) :
    ∃ intake entities kept, takeIn ctx e t = .ok (intake, entities) ∧
      Dataset.ofDescriptor e.descriptor kept = .ok c.dataset ∧
      ∀ s ∈ kept, ∃ entity ∈ entities,
        entity.summarize e.descriptor ctx.ratioSentinel = .ok (.kept s) := by
  rw [collect_eq] at h
  obtain ⟨⟨intake, entities⟩, htake, h⟩ := bind_eq_ok h
  obtain ⟨sifted, hsifted, hdataset, -⟩ := evaluate_eq_ok h
  exact ⟨intake, entities, sifted.kept, htake, hdataset, fun s hs => mem_kept hsifted hs⟩

/-- Every fault of the second stage is about a strategy without a result. -/
theorem family_of_evaluate {ctx : Context} {e : Evaluation} {intake : Intake}
    {entities : List Entity} {fault : Fault} (h : evaluate ctx e intake entities = .error fault) :
    fault.family = .undefinedResult := by
  unfold evaluate at h
  rcases bind_eq_error h with h | ⟨sifted, -, h⟩
  · cases hsift : siftEntities e.descriptor ctx.ratioSentinel entities with
    | error reason =>
      rw [hsift] at h
      cases h
      obtain ⟨entity, -, hreason⟩ := siftEntities_error hsift
      have hfamily := Entity.family_of_summarize hreason
      rwa [← Fault.family_withContext reason "evaluation" e.label] at hfamily
    | ok sifted =>
      rw [hsift] at h
      cases h
  · obtain ⟨-, -, complete, -, -, -, hdataset⟩ :=
      Dataset.ofDescriptor_spec (namesColumns_descriptor e) sifted.kept
    rw [hdataset] at h
    cases h

end FigureData
