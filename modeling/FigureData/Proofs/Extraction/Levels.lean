/-
  The entities of levels, whatever the order in which their files come.

  A file measures one repetition of one level.  What has been collected is kept by level and
  repetition, so as long as no two files stand for the same repetition of the same level,
  nothing is overwritten, and what is kept is the set of what the files measure.  A label may
  come up in several repetitions of a level: it stands where the first of them puts it, and its
  sample is that of the last.

  Proved:
  * `readRepetition_eq_ok_iff`: which records measure a repetition.
  * `Extractor.ingestAll_complexity_eq_ok_iff`: those are accepted, and what they measure is entered.
  * `holds_enterRepetitions`, `Holds.eq_of_mem_iff`: what is kept is the set of what was entered.
  * `pairwise_labels`, `lookup_reverse_eq_some_iff`: which repetition a label is placed by, and
    which one its sample is taken from.
  * `isLevel_levelEntity`, `listsLevels`: so much for one level and for the list of all.
  * `Extractor.exists_listsLevels`: what is handed over, in whatever order the records come.
-/
import FigureData.Proofs.Extraction.Measurements
import FigureData.Proofs.Extraction.Sessions
import FigureData.Proofs.FirstAppearance
import Mathlib.Order.Bounds.Basic
import Mathlib.Order.ConditionallyCompleteLattice.Basic

namespace FigureData

open Extraction Outcome

/-! ## Reading -/

/-- What a record measures, according to its name and its document. -/
def Record.Measures (r : Record) (rep : Repetition) : Prop :=
  readComplexityName? r.fileName = some (rep.repetition, rep.level) ∧
    ∃ j commands, r.document = .ok j ∧
      ((j.at? "/num_commands").bind fun part => part.count? 64) = some commands ∧
      rep.label = "c" ++ toString commands ∧
      readSample j timesSource r.fileName = .ok rep.sample

namespace Extraction

/-- A record is read exactly when it measures a repetition, as that repetition. -/
theorem readRepetition_eq_ok_iff {r : Record} {rep : Repetition} :
    readRepetition r = .ok rep ↔ r.Measures rep := by
  unfold readRepetition Record.Measures
  constructor
  · intro h
    simp only at h
    split at h
    · cases h
    next repetition level hname =>
      obtain ⟨j, hj, h⟩ := bind_eq_ok h
      obtain ⟨part, hpart, h⟩ := bind_eq_ok h
      split at h
      · cases h
      next commands hcommands =>
        obtain ⟨sample, hsample, h⟩ := bind_eq_ok h
        cases h
        refine ⟨hname, j, commands, hj, ?_, rfl, hsample⟩
        rw [require_eq_ok_iff.1 hpart]
        exact hcommands
  · rintro ⟨hname, j, commands, hj, hcommands, hlabel, hsample⟩
    obtain ⟨part, hpart, hcommands⟩ := Option.bind_eq_some_iff.1 hcommands
    obtain ⟨repetition, level, label, sample⟩ := rep
    subst hlabel
    simp only [hname, hj, hsample, require_eq_ok_iff.2 hpart, hcommands, bind, Except.bind]
    rfl

/-- Repetitions entered one after the other. -/
def enterRepetitions (levels : Levels) (reps : List Repetition) : Levels :=
  reps.foldl (fun acc rep => rep.enter acc) levels

end Extraction

/-- Records are accepted when each of them measures a repetition; what has been collected are
these repetitions. -/
theorem Extractor.ingestAll_complexity_eq_ok_iff {levels : Levels} {records : List Record}
    {y : Extractor} :
    (complexity levels).ingestAll records = .ok y ↔
      ∃ reps, List.Forall₂ Record.Measures records reps ∧
        y = .complexity (enterRepetitions levels reps) := by
  induction records generalizing levels with
  | nil =>
    constructor
    · intro h
      cases h
      exact ⟨[], .nil, rfl⟩
    · rintro ⟨reps, hreps, rfl⟩
      cases hreps
      rfl
  | cons r rest ih =>
    have hcons : (complexity levels).ingestAll (r :: rest) =
        (complexity levels).ingest r >>= fun next => next.ingestAll rest := List.foldlM_cons ..
    rw [hcons]
    constructor
    · intro h
      obtain ⟨next, hnext, h⟩ := bind_eq_ok h
      obtain ⟨rep, hrep, rfl⟩ := map_eq_ok hnext
      obtain ⟨reps, hreps, rfl⟩ := ih.1 h
      exact ⟨rep :: reps, .cons (readRepetition_eq_ok_iff.1 hrep) hreps, rfl⟩
    · rintro ⟨reps, hreps, rfl⟩
      cases hreps with
      | cons hrep hrest =>
        rename_i rep reps
        have hnext : (complexity levels).ingest r = .ok (complexity (rep.enter levels)) := by
          show (readRepetition r).map _ = _
          rw [readRepetition_eq_ok_iff.2 hrep]
          rfl
        rw [hnext]
        exact ih.2 ⟨reps, hrest, rfl⟩

/-! ## What is kept -/

namespace Extraction

/-- Where a repetition is kept: under its own number and its level. -/
def Repetition.place (rep : Repetition) : ℕ × ℕ := (rep.repetition, rep.level)

theorem Repetition.eq_of_place {a b : Repetition} (hplace : a.place = b.place)
    (h : (a.label, a.sample) = (b.label, b.sample)) : a = b := by
  cases a
  cases b
  cases hplace
  cases h
  rfl

/-- What is kept of a repetition of a level. -/
def kept? (levels : Levels) (v q : ℕ) : Option (String × Sample) :=
  (levels.find? v).bind fun repetitions => repetitions.find? q

theorem kept?_enter (levels : Levels) (rep : Repetition) (v q : ℕ) :
    kept? (rep.enter levels) v q =
      if (q, v) = rep.place then some (rep.label, rep.sample) else kept? levels v q := by
  unfold kept? Repetition.enter Repetition.place
  by_cases hv : v = rep.level
  · subst hv
    rw [SortedMap.find?_insert_self, Option.bind_some]
    by_cases hq : q = rep.repetition
    · rw [hq, if_pos rfl, SortedMap.find?_insert_self]
    · rw [if_neg fun h => hq (Prod.mk.inj h).1, SortedMap.find?_insert_of_ne _ _ hq]
      cases levels.find? rep.level with
      | none => rfl
      | some repetitions => rfl
  · rw [if_neg fun h => hv (Prod.mk.inj h).2, SortedMap.find?_insert_of_ne _ _ hv]

/-- What is kept is the set of what was entered. -/
structure Holds (levels : Levels) (reps : List Repetition) : Prop where
  kept_iff : ∀ rep : Repetition,
    kept? levels rep.level rep.repetition = some (rep.label, rep.sample) ↔ rep ∈ reps
  level_iff : ∀ v, (∃ repetitions, levels.find? v = some repetitions) ↔ ∃ rep ∈ reps, rep.level = v

/-- Nothing is overwritten where no two repetitions have the same place. -/
theorem holds_enterRepetitions {reps : List Repetition} (h : (reps.map Repetition.place).Nodup) :
    Holds (enterRepetitions ∅ reps) reps := by
  induction reps using List.reverseRecOn with
  | nil => exact ⟨fun _ => iff_of_false nofun nofun, fun _ => iff_of_false nofun nofun⟩
  | append_singleton reps last ih =>
    rw [List.map_append, List.map_singleton, ← List.concat_eq_append, List.nodup_concat] at h
    obtain ⟨hnew, h⟩ := h
    have hlast : enterRepetitions ∅ (reps ++ [last]) = last.enter (enterRepetitions ∅ reps) := by
      unfold enterRepetitions
      rw [List.foldl_append]
      rfl
    obtain ⟨hkept, hlevel⟩ := ih h
    rw [hlast]
    constructor
    · intro rep
      rw [kept?_enter, List.mem_append, List.mem_singleton]
      split_ifs with hplace
      · have hnot : rep ∉ reps := fun hmem => hnew (hplace ▸ List.mem_map_of_mem hmem)
        rw [or_iff_right hnot]
        constructor
        · intro heq
          exact Repetition.eq_of_place hplace (Option.some.inj heq).symm
        · rintro rfl
          rfl
      · rw [hkept, or_iff_left fun heq => hplace (congrArg Repetition.place heq)]
    · intro v
      unfold Repetition.enter
      by_cases hv : v = last.level
      · rw [hv, SortedMap.find?_insert_self]
        exact iff_of_true ⟨_, rfl⟩
          ⟨last, List.mem_append_right _ (List.mem_singleton_self _), rfl⟩
      · rw [SortedMap.find?_insert_of_ne _ _ hv, hlevel]
        constructor
        · rintro ⟨rep, hrep, rfl⟩
          exact ⟨rep, List.mem_append_left _ hrep, rfl⟩
        · rintro ⟨rep, hrep, rfl⟩
          rcases List.mem_append.1 hrep with hrep | hrep
          · exact ⟨rep, hrep, rfl⟩
          · rw [List.mem_singleton.1 hrep] at hv
            exact absurd rfl hv

namespace Holds

variable {levels : Levels} {reps : List Repetition} (h : Holds levels reps)
include h

theorem mem_entries_iff {v q : ℕ} {repetitions : SortedMap ℕ (String × Sample)}
    (hv : levels.find? v = some repetitions) {label : String} {sample : Sample} :
    (q, label, sample) ∈ repetitions.entries ↔ ⟨q, v, label, sample⟩ ∈ reps := by
  rw [← h.kept_iff]
  unfold kept?
  rw [hv, Option.bind_some, SortedMap.find?_eq_some_iff]

/-- The order in which repetitions are entered leaves no trace. -/
theorem eq_of_mem_iff {levels' : Levels} {reps' : List Repetition} (h' : Holds levels' reps')
    (hmem : ∀ rep, rep ∈ reps ↔ rep ∈ reps') : levels = levels' := by
  refine SortedMap.ext_find? fun v => Option.ext fun repetitions => ?_
  have hsame : ∀ m m', levels.find? v = some m → levels'.find? v = some m' → m = m' := by
    intro m m' hm hm'
    refine SortedMap.ext_find? fun q => Option.ext fun ⟨label, sample⟩ => ?_
    rw [SortedMap.find?_eq_some_iff, SortedMap.find?_eq_some_iff, h.mem_entries_iff hm,
      h'.mem_entries_iff hm', hmem]
  have hlevels : (∃ m, levels.find? v = some m) ↔ ∃ m, levels'.find? v = some m := by
    rw [h.level_iff, h'.level_iff]
    simp only [hmem]
  constructor
  · intro hm
    obtain ⟨m', hm'⟩ := hlevels.1 ⟨_, hm⟩
    rw [hsame _ _ hm hm', hm']
  · intro hm'
    obtain ⟨m, hm⟩ := hlevels.2 ⟨_, hm'⟩
    rw [← hsame _ _ hm hm', hm]

end Holds

end Extraction

/-! ## Labels that come up again -/

section Labels

variable {α : Type} {entries : List (ℕ × String × α)}

/-- The keys under which a label stands. -/
def keysOf (entries : List (ℕ × String × α)) (label : String) : Set ℕ :=
  {q | ∃ a, (q, label, a) ∈ entries}

theorem mem_keysOf_concat {last : ℕ × String × α} {label : String} {q : ℕ} :
    q ∈ keysOf (entries ++ [last]) label ↔
      q ∈ keysOf entries label ∨ q = last.1 ∧ label = last.2.1 := by
  obtain ⟨k, l, a⟩ := last
  show (∃ b, (q, label, b) ∈ entries ++ [(k, l, a)]) ↔ _
  simp only [List.mem_append, List.mem_singleton, Prod.mk.injEq, exists_or]
  refine or_congr_right ⟨?_, ?_⟩
  · rintro ⟨_, hq, hl, -⟩
    exact ⟨hq, hl⟩
  · rintro ⟨hq, hl⟩
    exact ⟨a, hq, hl, rfl⟩

theorem nonempty_keysOf_iff {label : String} :
    (keysOf entries label).Nonempty ↔ label ∈ (entries.map fun e => e.2.1).eraseDups := by
  rw [List.mem_eraseDups, List.mem_map]
  constructor
  · rintro ⟨q, a, hmem⟩
    exact ⟨_, hmem, rfl⟩
  · rintro ⟨⟨q, l, a⟩, hmem, rfl⟩
    exact ⟨q, a, hmem⟩

/-- Labels come in the order of the smallest keys under which they stand. -/
theorem pairwise_labels (h : entries.Pairwise fun a b => a.1 < b.1) :
    (entries.map fun e => e.2.1).eraseDups.Pairwise fun a b =>
      ∃ p q, IsLeast (keysOf entries a) p ∧ IsLeast (keysOf entries b) q ∧ p < q := by
  induction entries using List.reverseRecOn with
  | nil => exact .nil
  | append_singleton entries last ih =>
    obtain ⟨h, -, hlast⟩ := List.pairwise_append.1 h
    have hbelow : ∀ {label p}, p ∈ keysOf entries label → p < last.1 := by
      rintro label p ⟨a, hmem⟩
      exact hlast _ hmem _ (List.mem_singleton_self _)
    -- A later key does not take the place of the smallest.
    have hleast : ∀ {label p}, IsLeast (keysOf entries label) p →
        IsLeast (keysOf (entries ++ [last]) label) p := by
      rintro label p ⟨hp, hlower⟩
      refine ⟨mem_keysOf_concat.2 (.inl hp), fun q hq => ?_⟩
      rcases mem_keysOf_concat.1 hq with hq | ⟨rfl, -⟩
      · exact hlower hq
      · exact (hbelow hp).le
    have hrest : (entries.map fun e => e.2.1).eraseDups.Pairwise fun a b => ∃ p q,
        IsLeast (keysOf (entries ++ [last]) a) p ∧ IsLeast (keysOf (entries ++ [last]) b) q ∧
          p < q :=
      (ih h).imp fun ⟨p, q, hp, hq, hlt⟩ => ⟨p, q, hleast hp, hleast hq, hlt⟩
    rw [List.map_append, List.map_singleton, eraseDups_concat]
    split_ifs with hmem
    · exact hrest
    · refine List.pairwise_append.2 ⟨hrest, List.pairwise_singleton _ _, ?_⟩
      intro label hlabel new hnew
      rw [List.mem_singleton.1 hnew]
      obtain ⟨p, hp⟩ : ∃ p, IsLeast (keysOf entries label) p :=
        ⟨_, isLeast_csInf (nonempty_keysOf_iff.2 hlabel)⟩
      refine ⟨p, last.1, hleast hp, ⟨mem_keysOf_concat.2 (.inr ⟨rfl, rfl⟩), fun q hq => ?_⟩,
        hbelow hp.1⟩
      rcases mem_keysOf_concat.1 hq with hq | ⟨rfl, -⟩
      · exact absurd (List.mem_eraseDups.1 (nonempty_keysOf_iff.1 ⟨q, hq⟩)) hmem
      · exact le_rfl

/-- The last value under a label is the one with the largest key. -/
theorem lookup_reverse_eq_some_iff (h : entries.Pairwise fun a b => a.1 < b.1) {label : String}
    {a : α} : (entries.map Prod.snd).reverse.lookup label = some a ↔
      ∃ q, IsGreatest (keysOf entries label) q ∧ (q, label, a) ∈ entries := by
  induction entries using List.reverseRecOn with
  | nil => exact iff_of_false nofun fun ⟨_, _, hmem⟩ => absurd hmem List.not_mem_nil
  | append_singleton entries last ih =>
    obtain ⟨hsorted, -, hlast⟩ := List.pairwise_append.1 h
    have hbelow : ∀ {q label a}, (q, label, a) ∈ entries → q < last.1 :=
      fun hmem => hlast _ hmem _ (List.mem_singleton_self _)
    obtain ⟨k, l, b⟩ := last
    rw [List.map_append, List.reverse_append, List.map_singleton, List.reverse_singleton,
      List.singleton_append, List.lookup_cons]
    by_cases hl : label = l
    · subst hl
      rw [beq_self_eq_true]
      have hgreatest : IsGreatest (keysOf (entries ++ [(k, label, b)]) label) k := by
        refine ⟨mem_keysOf_concat.2 (.inr ⟨rfl, rfl⟩), fun q hq => ?_⟩
        rcases mem_keysOf_concat.1 hq with ⟨a, hmem⟩ | ⟨rfl, -⟩
        · exact (hbelow hmem).le
        · exact le_rfl
      constructor
      · intro heq
        cases heq
        exact ⟨k, hgreatest, List.mem_append_right _ (List.mem_singleton_self _)⟩
      · rintro ⟨q, hq, hmem⟩
        obtain rfl := hq.unique hgreatest
        rcases List.mem_append.1 hmem with hmem | hmem
        · exact absurd (hbelow hmem) (lt_irrefl _)
        · cases List.mem_singleton.1 hmem
          rfl
    · have hkeys : keysOf (entries ++ [(k, l, b)]) label = keysOf entries label :=
        Set.ext fun q => mem_keysOf_concat.trans (or_iff_left fun hand => hl hand.2)
      rw [beq_eq_false_iff_ne.2 hl, hkeys]
      refine (ih hsorted).trans (exists_congr fun q => and_congr_right fun _ => ?_)
      rw [List.mem_append, or_iff_left]
      intro hmem
      cases List.mem_singleton.1 hmem
      exact hl rfl

end Labels

/-! ## The entities of levels -/

/-- The repetitions of a level that were measured under a label. -/
def repetitionsOf (records : List Record) (v : ℕ) (label : String) : Set ℕ :=
  {q | ∃ sample, ∃ r ∈ records, r.Measures ⟨q, v, label, sample⟩}

/-- The entity of a level, as the records have measured it. -/
structure Entity.IsLevel (e : Entity) (records : List Record) (v : ℕ) : Prop where
  id : e.id = toString v
  scalars : e.scalars = .ofList [("complexity", Binary64.ofNat v)]
  label_iff : ∀ label, label ∈ e.samples.keys ↔ (repetitionsOf records v label).Nonempty
  /-- Labels come in ascending order of the smallest repetition that has them. -/
  ordered : e.samples.keys.Pairwise fun a b => ∃ p q,
    IsLeast (repetitionsOf records v a) p ∧ IsLeast (repetitionsOf records v b) q ∧ p < q
  /-- The sample of a label is that of the largest repetition that has it. -/
  sample_iff : ∀ label sample, e.samples.find? label = some sample ↔
    ∃ q, IsGreatest (repetitionsOf records v label) q ∧
      ∃ r ∈ records, r.Measures ⟨q, v, label, sample⟩

namespace Extraction

variable {levels : Levels} {reps : List Repetition} {records : List Record}

theorem mem_iff_measures (h : List.Forall₂ Record.Measures records reps) {rep : Repetition} :
    rep ∈ reps ↔ ∃ r ∈ records, r.Measures rep := by
  constructor
  · exact exists_mem_of_forall₂ h
  · rintro ⟨r, hr, hrep⟩
    obtain ⟨rep', hmem, hrep'⟩ := exists_mem_of_forall₂ h.flip hr
    have heq := (readRepetition_eq_ok_iff.2 hrep).symm.trans (readRepetition_eq_ok_iff.2 hrep')
    rwa [Except.ok.inj heq]

/-- Labels come in the order in which the repetitions bring them. -/
theorem keys_levelEntity (v : ℕ) (repetitions : SortedMap ℕ (String × Sample)) :
    (levelEntity v repetitions).samples.keys =
      (repetitions.entries.map fun e => e.2.1).eraseDups := by
  show ((∅ : OrderedMap Sample).insertAll repetitions.values).keys = _
  rw [OrderedMap.keys_insertAll]
  show ((repetitions.entries.map Prod.snd).map Prod.fst).eraseDups = _
  rw [List.map_map]
  rfl

/-- Of several samples under a label the last counts. -/
theorem find?_levelEntity (v : ℕ) (repetitions : SortedMap ℕ (String × Sample)) (label : String) :
    (levelEntity v repetitions).samples.find? label =
      (repetitions.entries.map Prod.snd).reverse.lookup label := by
  show ((∅ : OrderedMap Sample).insertAll repetitions.values).find? label = _
  rw [OrderedMap.find?_insertAll]
  exact Option.or_none

/-- The entity of a level is as the records have measured it. -/
theorem isLevel_levelEntity (hrecords : List.Forall₂ Record.Measures records reps)
    (h : Holds levels reps) {v : ℕ} {repetitions : SortedMap ℕ (String × Sample)}
    (hv : levels.find? v = some repetitions) : (levelEntity v repetitions).IsLevel records v := by
  have hmem : ∀ {q label sample}, (q, label, sample) ∈ repetitions.entries ↔
      ∃ r ∈ records, r.Measures ⟨q, v, label, sample⟩ := by
    intro q label sample
    rw [h.mem_entries_iff hv, mem_iff_measures hrecords]
  have hkeysOf : ∀ label, keysOf repetitions.entries label = repetitionsOf records v label :=
    fun label => Set.ext fun q => exists_congr fun sample => hmem
  have hsorted : repetitions.entries.Pairwise fun a b => a.1 < b.1 :=
    repetitions.sorted.imp Nat.compare_eq_lt.1
  refine ⟨rfl, rfl, ?_, ?_, ?_⟩
  · intro label
    rw [keys_levelEntity, ← nonempty_keysOf_iff, hkeysOf]
  · rw [keys_levelEntity]
    simp only [← hkeysOf]
    exact pairwise_labels hsorted
  · intro label sample
    rw [find?_levelEntity, lookup_reverse_eq_some_iff hsorted, hkeysOf]
    simp only [hmem]

end Extraction

/-- What does not depend on the numbers of entities holds of them also when they are numbered. -/
theorem Entity.forall₂_number {α : Type} {R : α → Entity → Prop}
    (hnumber : ∀ a e i, R a e → R a { e with discovery := i }) {xs : List α}
    {entities : List Entity} (h : List.Forall₂ R xs entities) (start : ℕ) :
    List.Forall₂ R xs (number start entities) := by
  induction h generalizing start with
  | nil => exact .nil
  | cons he _ ih => exact .cons (hnumber _ _ _ he) (ih (start + 1))

/-- There is one entity for every level, in the order of the levels. -/
theorem Extraction.forall₂_isLevel {levels : Levels} {reps : List Repetition}
    {records : List Record} (hrecords : List.Forall₂ Record.Measures records reps)
    (h : Holds levels reps) :
    List.Forall₂ (fun v e => Entity.IsLevel e records v) levels.keys (levelEntities levels) := by
  refine Entity.forall₂_number ?_ ?_ 0
  · rintro v e i ⟨hid, hscalars, hlabels, hordered, hsamples⟩
    exact ⟨hid, hscalars, hlabels, hordered, hsamples⟩
  · unfold SortedMap.keys
    rw [List.forall₂_map_left_iff, List.forall₂_map_right_iff, List.forall₂_same]
    rintro ⟨v, repetitions⟩ hmem
    exact isLevel_levelEntity hrecords h (SortedMap.find?_of_mem hmem)

/-- Names that stand for distinct repetitions of levels give distinct places. -/
theorem Extraction.nodup_place {records : List Record} {reps : List Repetition}
    (hdistinct : (records.map fun r => readComplexityName? r.fileName).Nodup)
    (hrecords : List.Forall₂ Record.Measures records reps) :
    (reps.map Repetition.place).Nodup := by
  have hnames : (reps.map Repetition.place).map some =
      records.map fun r => readComplexityName? r.fileName := by
    rw [List.map_map]
    exact map_eq_of_forall₂ (hrecords.imp fun _ _ hrep => hrep.1.symm)
  rw [← hnames] at hdistinct
  exact hdistinct.of_map some

/-- The entities are those of all levels that the records have measured, in ascending order. -/
structure ListsLevels (records : List Record) (levels : List ℕ) (entities : List Entity) :
    Prop where
  ascending : levels.Pairwise (· < ·)
  level_iff : ∀ v, v ∈ levels ↔ ∃ r ∈ records, ∃ q, readComplexityName? r.fileName = some (q, v)
  entities : List.Forall₂ (fun v e => Entity.IsLevel e records v) levels entities

/-- No level is lost. -/
theorem Extraction.listsLevels {levels : Levels} {reps : List Repetition} {records : List Record}
    (hrecords : List.Forall₂ Record.Measures records reps) (h : Holds levels reps) :
    ListsLevels records levels.keys (levelEntities levels) where
  ascending := List.pairwise_map.2 (levels.sorted.imp Nat.compare_eq_lt.1)
  level_iff v := by
    rw [SortedMap.mem_keys_iff, h.level_iff]
    constructor
    · rintro ⟨rep, hrep, rfl⟩
      obtain ⟨r, hr, hname, -⟩ := (mem_iff_measures hrecords).1 hrep
      exact ⟨r, hr, rep.repetition, hname⟩
    · rintro ⟨r, hr, q, hname⟩
      obtain ⟨rep, hrep, hname', -⟩ := exists_mem_of_forall₂ hrecords.flip hr
      obtain ⟨-, rfl⟩ := Prod.mk.inj (Option.some.inj (hname'.symm.trans hname))
      exact ⟨rep, hrep, rfl⟩
  entities := forall₂_isLevel hrecords h

/-- Records whose names stand for distinct repetitions of levels are collected as the entities
of their levels, in whatever order they come. -/
theorem Extractor.exists_listsLevels {records : List Record} {x : Extractor}
    (hdistinct : (records.map fun r => readComplexityName? r.fileName).Nodup)
    (h : (Extractor.ofDescriptor .complexity).ingestAll records = .ok x) :
    ∃ levels entities, x.finish.2 = .ok entities ∧ ListsLevels records levels entities ∧
      ∀ others, others.Perm records →
        ∃ y, (Extractor.ofDescriptor .complexity).ingestAll others = .ok y ∧
          y.finish.2 = .ok entities := by
  obtain ⟨reps, hrecords, rfl⟩ := ingestAll_complexity_eq_ok_iff.1 h
  have hholds := holds_enterRepetitions (nodup_place hdistinct hrecords)
  refine ⟨_, _, rfl, listsLevels hrecords hholds, ?_⟩
  intro others hperm
  obtain ⟨reps', hothers, hreps⟩ := List.perm_comp_forall₂ hperm hrecords
  have hdistinct' : (others.map fun r => readComplexityName? r.fileName).Nodup :=
    (hperm.map _).nodup_iff.2 hdistinct
  have hholds' := holds_enterRepetitions (nodup_place hdistinct' hothers)
  refine ⟨_, ingestAll_complexity_eq_ok_iff.2 ⟨reps', hothers, rfl⟩, ?_⟩
  rw [hholds'.eq_of_mem_iff hholds fun rep => hreps.mem_iff]
  rfl

end FigureData
