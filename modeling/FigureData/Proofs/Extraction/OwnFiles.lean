/-
  Files that hold one strategy each are joined by their names.

  A name is read three times: by the patterns that select it, by the test for a suffix and by the
  stripping of a suffix.  Where no suffix ends in another one the three agree: a file that is
  selected holds one strategy, and its name is the identifier followed by the suffix.  So files
  with different names never bring the same sample, and their order does not matter.

  Proved:
  * `OwnFiles.held_eq_singleton`, `OwnFiles.fileName_eq`: what the name of a file says.
  * `find?_sample_iff`: the samples of an entity are those of its own files.
  * `joinsFiles`: when the join succeeds, and which file a fault names.
  * `own_files_join`: both for the explored states, and that the order of the files is immaterial.
-/
import FigureData.Proofs.Extraction.Sessions
import FigureData.Proofs.FirstAppearance
import FigureData.Proofs.Glob.Suffix
import FigureData.Proofs.Run.Stages

namespace FigureData

open Extraction Outcome

/-! ## Names -/

/-- How the names of the files of a strategy end. -/
def Strategy.suffix (s : Strategy) : String := s.fileSuffix.getD ""

/-- The name of the file that holds a strategy for an entity. -/
def Strategy.ownFile (s : Strategy) (id : String) : String := id ++ s.suffix

theorem Strategy.ownFile_inj {s : Strategy} {id id' : String} (h : s.ownFile id = s.ownFile id') :
    id = id' := by
  unfold ownFile at h
  rw [← String.toList_inj, String.toList_append, String.toList_append] at h
  exact String.toList_inj.1 (List.append_cancel_right h)

namespace Extraction

/-- Each strategy has files of its own, and no suffix ends in that of another strategy. -/
structure StrategyRules.OwnFiles (rules : StrategyRules) : Prop where
  labels : (rules.strategies.map Strategy.label).Nodup
  suffixed : ∀ s ∈ rules.strategies, s.fileSuffix ≠ none
  apart : ∀ s ∈ rules.strategies, ∀ t ∈ rules.strategies,
    s.suffix.toList <:+ t.suffix.toList → s = t

theorem StrategyRules.applies_iff {s : Strategy} (h : s.fileSuffix ≠ none) (file : String) :
    applies s file = true ↔ s.suffix.toList <:+ file.toList := by
  have happlies : applies s file = (Text.beforeTail? s.suffix.toList file.toList).isSome := by
    obtain ⟨suffix, hsuffix⟩ := Option.ne_none_iff_exists'.1 h
    unfold applies Strategy.suffix
    rw [hsuffix, Option.getD_some]
  rw [happlies, Option.isSome_iff_exists]
  constructor
  · rintro ⟨front, hfront⟩
    exact ⟨front, (Text.eq_append_of_beforeTail? hfront).symm⟩
  · rintro ⟨front, hfront⟩
    exact ⟨front, hfront ▸ Text.beforeTail?_append ..⟩

namespace StrategyRules.OwnFiles

variable {rules : StrategyRules} (h : rules.OwnFiles)
include h

/-- Only one strategy applies to a file. -/
theorem unique {s t : Strategy} (hs : s ∈ rules.strategies) (ht : t ∈ rules.strategies)
    {file : String} (hfile : applies s file = true) (hfile' : applies t file = true) : s = t := by
  rw [applies_iff (h.suffixed s hs)] at hfile
  rw [applies_iff (h.suffixed t ht)] at hfile'
  rcases List.suffix_or_suffix_of_suffix hfile hfile' with hst | hts
  · exact h.apart s hs t ht hst
  · exact (h.apart t ht s hs hts).symm

/-- A file to which a strategy applies holds that strategy alone. -/
theorem held_eq_singleton {s : Strategy} (hs : s ∈ rules.strategies) {file : String}
    (hfile : applies s file = true) : rules.held file = [s] := by
  have hother : ∀ t ∈ rules.strategies, applies t file = (t == s) := by
    intro t ht
    rw [Bool.eq_iff_iff, beq_iff_eq]
    constructor
    · intro hfile'
      exact h.unique ht hs hfile' hfile
    · rintro rfl
      exact hfile
  unfold held
  rw [List.filter_congr hother, List.filter_beq,
    List.count_eq_one_of_mem (List.Nodup.of_map _ h.labels) hs]
  rfl

/-- Such a file is named after the entity and the strategy. -/
theorem fileName_eq {s : Strategy} (hs : s ∈ rules.strategies) {r : Record}
    (hfile : applies s r.fileName = true) : r.fileName = s.ownFile (rules.identify r) := by
  obtain ⟨suffix, hsuffix⟩ := Option.ne_none_iff_exists'.1 (h.suffixed s hs)
  have hfront : ∃ front, (rules.strategies.filterMap Strategy.fileSuffix).findSome?
      (fun suffix => Text.beforeTail? suffix.toList r.fileName.toList) = some front := by
    rw [← Option.isSome_iff_exists, List.findSome?_isSome_iff]
    refine ⟨suffix, List.mem_filterMap.2 ⟨s, hs, hsuffix⟩, ?_⟩
    rwa [StrategyRules.applies, hsuffix] at hfile
  obtain ⟨front, hfront⟩ := hfront
  have hid : rules.identify r = String.ofList front := by
    simp only [identify, hfront]
  -- The first suffix that the name has is that of the strategy.
  obtain ⟨suffix', hmem, hfront⟩ := List.exists_of_findSome?_eq_some hfront
  obtain ⟨t, ht, hsuffix'⟩ := List.mem_filterMap.1 hmem
  have hother : applies t r.fileName = true := by
    rw [StrategyRules.applies, hsuffix']
    exact Option.isSome_iff_exists.2 ⟨front, hfront⟩
  obtain rfl := h.unique hs ht hfile hother
  rw [← String.toList_inj, Text.eq_append_of_beforeTail? hfront, hid]
  unfold Strategy.ownFile Strategy.suffix
  rw [hsuffix', Option.getD_some, String.toList_append, String.toList_ofList]

theorem applies_ownFile {s : Strategy} (hs : s ∈ rules.strategies) (id : String) :
    applies s (s.ownFile id) = true := by
  rw [applies_iff (h.suffixed s hs)]
  unfold Strategy.ownFile
  rw [String.toList_append]
  exact List.suffix_append ..

/-- What a record contributes that holds a strategy: the sample of that strategy. -/
theorem contribution_spec {s : Strategy} (hs : s ∈ rules.strategies) {r : Record}
    (hfile : applies s r.fileName = true) {c : Option Contribution} (hread : rules.read r = .ok c) :
    ∃ c' j sample, c = some c' ∧ c'.id = rules.identify r ∧ c'.samples = [(s.label, sample)] ∧
      r.document = .ok j ∧ readSample j s.source r.fileName = .ok sample := by
  have hheld := h.held_eq_singleton hs hfile
  cases c with
  | none =>
    rw [held_of_read_none hread] at hheld
    cases hheld
  | some c =>
    obtain ⟨j, hj, hsamples⟩ := read_spec hread
    obtain ⟨-, -, -, hid, -⟩ := read_fields hread
    rw [hheld] at hsamples
    obtain ⟨⟨label, sample⟩, rest, ⟨rfl, hsample⟩, hrest, hlist⟩ :=
      List.forall₂_cons_left_iff.1 hsamples
    obtain rfl := List.forall₂_nil_left_iff.1 hrest
    exact ⟨c, j, sample, rfl, hid, hlist, hj, hsample⟩

end StrategyRules.OwnFiles

/-! ## Samples -/

/-- One of the records is the file of a strategy for an entity, and this is its sample. -/
def ProvidesSample (records : List Record) (s : Strategy) (id : String) (sample : Sample) : Prop :=
  ∃ r ∈ records, r.fileName = s.ownFile id ∧
    ∃ j, r.document = .ok j ∧ readSample j s.source r.fileName = .ok sample

/-- Records of different files, all of which hold a strategy and can be read. -/
structure StrategyRules.Reads (rules : StrategyRules) (records : List Record) : Prop where
  names : (records.map Record.fileName).Nodup
  applies : ∀ r ∈ records, ∃ s ∈ rules.strategies, StrategyRules.applies s r.fileName = true
  accepted : ∀ r ∈ records, ∃ c, rules.read r = .ok c

section Samples

variable {rules : StrategyRules} {records : List Record} (hrecords : rules.Reads records)
include hrecords

/-- A strategy has one sample for an entity at most. -/
theorem ProvidesSample.unique {s : Strategy} {id : String} {sample sample' : Sample}
    (hsample : ProvidesSample records s id sample)
    (hsample' : ProvidesSample records s id sample') : sample = sample' := by
  obtain ⟨r, hr, hname, j, hj, hread⟩ := hsample
  obtain ⟨r', hr', hname', j', hj', hread'⟩ := hsample'
  obtain rfl : r = r' := List.inj_on_of_nodup_map hrecords.names hr hr' (hname.trans hname'.symm)
  rw [hj] at hj'
  cases hj'
  rw [hread] at hread'
  exact Except.ok.inj hread'

variable (h : rules.OwnFiles)
include h

/-- Every record contributes. -/
theorem forall₂_contributions_own : List.Forall₂ (fun r c => rules.read r = .ok (some c)) records
    (rules.contributions records) := by
  refine StrategyRules.forall₂_contributions fun r hr => ?_
  obtain ⟨s, hs, hfile⟩ := hrecords.applies r hr
  obtain ⟨c, hc⟩ := hrecords.accepted r hr
  obtain ⟨c', -, -, rfl, -⟩ := h.contribution_spec hs hfile hc
  exact ⟨c', hc⟩

/-- The file of a strategy for an entity provides a sample. -/
theorem exists_providesSample {s : Strategy} (hs : s ∈ rules.strategies) {id : String}
    (hid : s.ownFile id ∈ records.map Record.fileName) :
    ∃ sample, ProvidesSample records s id sample := by
  obtain ⟨r, hr, hname⟩ := List.mem_map.1 hid
  obtain ⟨c, hc⟩ := hrecords.accepted r hr
  have hfile : StrategyRules.applies s r.fileName = true := hname ▸ h.applies_ownFile hs id
  obtain ⟨-, j, sample, -, -, -, hj, hread⟩ := h.contribution_spec hs hfile hc
  exact ⟨sample, r, hr, hname, j, hj, hread⟩

/-- Every sample of an entity is that of one of its own files. -/
theorem providesSample_of_find? {id label : String} {sample : Sample}
    (hsample : ((enterAll (rules.contributions records) ∅).find? id).bind
      (fun e => e.samples.find? label) = some sample) :
    ∃ s ∈ rules.strategies, s.label = label ∧ ProvidesSample records s id sample := by
  rw [sample_enterAll] at hsample
  obtain ⟨c, hmem, hc⟩ := List.exists_of_findSome?_eq_some hsample
  split_ifs at hc with hid
  obtain ⟨r, hr, hread⟩ :=
    exists_mem_of_forall₂ (forall₂_contributions_own hrecords h) (List.mem_reverse.1 hmem)
  obtain ⟨s, hs, hfile⟩ := hrecords.applies r hr
  obtain ⟨c', j, sample', hsome, hid', hlist, hj, hsource⟩ := h.contribution_spec hs hfile hread
  cases hsome
  rw [hlist, List.reverse_singleton, List.lookup_cons] at hc
  split at hc
  next hlabel =>
    cases hc
    refine ⟨s, hs, (beq_iff_eq.1 hlabel).symm, r, hr, ?_, j, hj, hsource⟩
    rw [← hid, hid']
    exact h.fileName_eq hs hfile
  next => cases hc

/-- The samples of an entity are those of its own files. -/
theorem find?_sample_iff {id label : String} {sample : Sample} :
    ((enterAll (rules.contributions records) ∅).find? id).bind (fun e => e.samples.find? label) =
      some sample ↔ ∃ s ∈ rules.strategies, s.label = label ∧ ProvidesSample records s id sample := by
  constructor
  · exact providesSample_of_find? hrecords h
  · rintro ⟨s, hs, rfl, hsample⟩
    have ⟨r, hr, hname, _⟩ := hsample
    obtain ⟨c, hmem, hread⟩ :=
      exists_mem_of_forall₂ (forall₂_contributions_own hrecords h).flip hr
    have hfile : StrategyRules.applies s r.fileName = true := hname ▸ h.applies_ownFile hs _
    obtain ⟨c', -, sample', hsome, hid, hlist, -⟩ := h.contribution_spec hs hfile hread
    cases hsome
    have hid' := Strategy.ownFile_inj (hname.symm.trans (h.fileName_eq hs hfile))
    -- Some record brings a sample, and there is one only.
    cases hfound : ((enterAll (rules.contributions records) ∅).find? _).bind
        (fun e => e.samples.find? s.label) with
    | some found =>
      obtain ⟨s', hs', hlabel, hfound'⟩ := providesSample_of_find? hrecords h hfound
      obtain rfl : s' = s := List.inj_on_of_nodup_map h.labels hs' hs hlabel
      rw [hfound'.unique hrecords hsample]
    | none =>
      rw [sample_enterAll, List.findSome?_eq_none_iff] at hfound
      have hnone := hfound c (List.mem_reverse.2 hmem)
      rw [if_pos (hid.trans hid'.symm), hlist, List.reverse_singleton, List.lookup_cons,
        beq_self_eq_true] at hnone
      cases hnone

end Samples

/-! ## The join -/

/-- All files of an entity are among the records. -/
def StrategyRules.HasFiles (rules : StrategyRules) (records : List Record) (id : String) : Prop :=
  ∀ s ∈ rules.strategies, s.ownFile id ∈ records.map Record.fileName

/-- The fault names the first file that is missing: of the first entity that lacks files, in order
of first appearance, the file of the first strategy that lacks one. -/
structure StrategyRules.NamesMissing (rules : StrategyRules) (records : List Record) (fault : Fault)
    (before : List String) (id : String) (after : List String) (had : List Strategy) (s : Strategy)
    (rest : List Strategy) : Prop where
  ids : (records.map rules.identify).eraseDups = before ++ id :: after
  complete : ∀ id' ∈ before, rules.HasFiles records id'
  strategies : rules.strategies = had ++ s :: rest
  present : ∀ s' ∈ had, s'.ownFile id ∈ records.map Record.fileName
  missing : s.ownFile id ∉ records.map Record.fileName
  family : fault.family = .schema
  code : fault.code = "missing_strategy_file"
  file : fault.context.find? "file" = some (s.ownFile id)
  entity : fault.context.find? "entity" = some id

/-- The entities that an extractor has collected are joined from the files of the records. -/
structure StrategyRules.JoinsFiles (rules : StrategyRules) (records : List Record) (x : Extractor) :
    Prop where
  ids : x.entities.map Entity.id = (records.map rules.identify).eraseDups
  samples : ∀ e ∈ x.entities, ∀ label sample, e.samples.find? label = some sample ↔
    ∃ s ∈ rules.strategies, s.label = label ∧ ProvidesSample records s e.id sample
  finishes : (∃ entities, x.finish.2 = .ok entities) ↔
    ∀ r ∈ records, rules.HasFiles records (rules.identify r)
  finished : ∀ entities, x.finish.2 = .ok entities → entities = x.entities ∧
    ∀ e ∈ entities, e.samples.keys.Perm (rules.strategies.map Strategy.label)
  missing : ∀ fault, x.finish.2 = .error fault →
    ∃ before id after had s rest, rules.NamesMissing records fault before id after had s rest

section Join

variable {rules : StrategyRules} {records : List Record} (hrecords : rules.Reads records)
  (h : rules.OwnFiles)
include hrecords h

theorem samples_iff {e : Entity} (he : e ∈ (enterAll (rules.contributions records) ∅).values)
    {label : String} {sample : Sample} : e.samples.find? label = some sample ↔
      ∃ s ∈ rules.strategies, s.label = label ∧ ProvidesSample records s e.id sample := by
  rw [← find?_sample_iff hrecords h, find?_of_mem_values he, Option.bind_some]

/-- An entity has a sample of a strategy exactly when its file is there. -/
theorem contains_iff {e : Entity} (he : e ∈ (enterAll (rules.contributions records) ∅).values)
    {s : Strategy} (hs : s ∈ rules.strategies) : e.samples.contains s.label = true ↔
      s.ownFile e.id ∈ records.map Record.fileName := by
  unfold OrderedMap.contains
  rw [Option.isSome_iff_exists]
  constructor
  · rintro ⟨sample, hsample⟩
    obtain ⟨s', hs', hlabel, r, hr, hname, -⟩ := (samples_iff hrecords h he).1 hsample
    obtain rfl : s' = s := List.inj_on_of_nodup_map h.labels hs' hs hlabel
    exact List.mem_map.2 ⟨r, hr, hname⟩
  · intro hfile
    obtain ⟨sample, hsample⟩ := exists_providesSample hrecords h hs hfile
    exact ⟨sample, (samples_iff hrecords h he).2 ⟨s, hs, rfl, hsample⟩⟩

theorem ids_own : (enterAll (rules.contributions records) ∅).values.map Entity.id =
    (records.map rules.identify).eraseDups := by
  have hids : (rules.contributions records).map Contribution.id = records.map rules.identify := by
    refine map_eq_of_forall₂ ((forall₂_contributions_own hrecords h).imp fun r c hc => ?_)
    obtain ⟨-, -, -, hid, -⟩ := StrategyRules.read_fields hc
    exact hid
  rw [map_id_enterAll, keys_enterAll, hids]
  rfl

/-- A fault of the join names the first file that is missing. -/
theorem namesMissing_of_complete {fault : Fault}
    (hfault : rules.complete (enterAll (rules.contributions records) ∅).values = .error fault) :
    ∃ before id after had s rest, rules.NamesMissing records fault before id after had s rest := by
  obtain ⟨before, e, after, hsplit, hbefore, had, s, rest, suffix, hstrategies, hsuffix, hhad,
    hmissing, rfl⟩ := StrategyRules.complete_fault hfault
  have hentity : ∀ e' ∈ before ++ e :: after,
      e' ∈ (enterAll (rules.contributions records) ∅).values := fun e' he' => hsplit ▸ he'
  have hstrategy : ∀ s' ∈ had ++ s :: rest, s' ∈ rules.strategies :=
    fun s' hs' => hstrategies ▸ hs'
  have he := hentity e (List.mem_append_right _ (List.mem_cons_self ..))
  have hs := hstrategy s (List.mem_append_right _ (List.mem_cons_self ..))
  have hfile : s.ownFile e.id = e.id ++ suffix := by
    unfold Strategy.ownFile Strategy.suffix
    rw [hsuffix, Option.getD_some]
  refine ⟨before.map Entity.id, e.id, after.map Entity.id, had, s, rest, ?_⟩
  constructor
  case ids => rw [← ids_own hrecords h, hsplit, List.map_append, List.map_cons]
  case complete =>
    intro id' hid' s' hs'
    obtain ⟨e', he', rfl⟩ := List.mem_map.1 hid'
    rw [← contains_iff hrecords h (hentity e' (List.mem_append_left _ he')) hs']
    exact hbefore e' he' s' hs' (h.suffixed s' hs')
  case strategies => exact hstrategies
  case present =>
    intro s' hs'
    have hs'' := hstrategy s' (List.mem_append_left _ hs')
    rw [← contains_iff hrecords h he hs'']
    exact hhad s' hs' (h.suffixed s' hs'')
  case missing =>
    rw [← contains_iff hrecords h he hs, hmissing]
    exact Bool.false_ne_true
  case family => rfl
  case code => rfl
  case file =>
    rw [hfile]
    exact (SortedMap.find?_insert_of_ne _ _ (by decide)).trans (SortedMap.find?_insert_self ..)
  case entity => exact SortedMap.find?_insert_self ..

/-- A join that succeeds gives every entity one sample of each strategy. -/
theorem keys_of_complete {entities : List Entity}
    (hcomplete : rules.complete (enterAll (rules.contributions records) ∅).values = .ok entities)
    {e : Entity} (he : e ∈ (enterAll (rules.contributions records) ∅).values) :
    e.samples.keys.Perm (rules.strategies.map Strategy.label) := by
  refine (List.perm_ext_iff_of_nodup e.samples.nodup h.labels).2 fun label => ?_
  constructor
  · intro hlabel
    obtain ⟨sample, hsample⟩ := OrderedMap.exists_find? hlabel
    obtain ⟨s, hs, rfl, -⟩ := (samples_iff hrecords h he).1 hsample
    exact List.mem_map_of_mem hs
  · intro hlabel
    obtain ⟨s, hs, rfl⟩ := List.mem_map.1 hlabel
    have hcontains := (StrategyRules.complete_spec hcomplete).2 e he s hs (h.suffixed s hs)
    by_contra habsent
    rw [OrderedMap.contains, OrderedMap.find?_eq_none_iff.2 habsent] at hcontains
    cases hcontains

/-- Records of different files are joined by their names. -/
theorem joinsFiles : rules.JoinsFiles records
    (.strategies rules (enterAll (rules.contributions records) ∅)) := by
  constructor
  case ids => exact ids_own hrecords h
  case samples => exact fun e he label sample => samples_iff hrecords h he
  case finishes =>
    constructor
    · rintro ⟨entities, hentities⟩ r hr s hs
      have hid : rules.identify r ∈
          (enterAll (rules.contributions records) ∅).values.map Entity.id := by
        rw [ids_own hrecords h, List.mem_eraseDups]
        exact List.mem_map_of_mem hr
      obtain ⟨e, he, hid⟩ := List.mem_map.1 hid
      rw [← hid, ← contains_iff hrecords h he hs]
      exact (StrategyRules.complete_spec hentities).2 e he s hs (h.suffixed s hs)
    · intro hfiles
      cases hfinish : rules.complete (enterAll (rules.contributions records) ∅).values with
      | ok entities => exact ⟨entities, hfinish⟩
      | error fault =>
        obtain ⟨before, id, after, had, s, rest, hnames⟩ :=
          namesMissing_of_complete hrecords h hfinish
        have hid : id ∈ (records.map rules.identify).eraseDups := by
          rw [hnames.ids]
          exact List.mem_append_right _ (List.mem_cons_self ..)
        obtain ⟨r, hr, rfl⟩ := List.mem_map.1 (List.mem_eraseDups.1 hid)
        refine absurd (hfiles r hr s ?_) hnames.missing
        rw [hnames.strategies]
        exact List.mem_append_right _ (List.mem_cons_self ..)
  case finished =>
    intro entities hentities
    obtain rfl := (StrategyRules.complete_spec hentities).1
    exact ⟨rfl, fun e he => keys_of_complete hrecords h hentities he⟩
  case missing => exact fun fault hfault => namesMissing_of_complete hrecords h hfault

omit hrecords in
/-- No record before brings the sample of a record. -/
theorem find?_before_eq_none {before after : List Record} {r : Record}
    (hrecords : rules.Reads (before ++ r :: after)) {e : Entity}
    (he : e ∈ (enterAll (rules.contributions before) ∅).values) (hid : e.id = rules.identify r)
    {s : Strategy} (hs : s ∈ rules.held r.fileName) : e.samples.find? s.label = none := by
  obtain ⟨hs, hfile⟩ := List.mem_filter.1 hs
  have hbefore : rules.Reads before := by
    refine ⟨?_, fun r hr => ?_, fun r hr => ?_⟩
    · exact hrecords.names.sublist ((List.sublist_append_left _ _).map _)
    · exact hrecords.applies r (List.mem_append_left _ hr)
    · exact hrecords.accepted r (List.mem_append_left _ hr)
  refine Option.eq_none_iff_forall_ne_some.2 fun sample hsample => ?_
  obtain ⟨s', hs', hlabel, r', hr', hname, -⟩ := (samples_iff hbefore h he).1 hsample
  obtain rfl : s' = s := List.inj_on_of_nodup_map h.labels hs' hs hlabel
  rw [hid, ← h.fileName_eq hs hfile] at hname
  have hnames := hrecords.names
  rw [List.map_append, List.map_cons] at hnames
  exact (List.nodup_append.1 hnames).2.2 _ (List.mem_map_of_mem hr') _ (List.mem_cons_self ..) hname

end Join

/-! ## Orders -/

/-- The entities have the same identifiers and, under each of them, the same samples. -/
structure SameJoin (x y : Extractor) : Prop where
  ids : (y.entities.map Entity.id).Perm (x.entities.map Entity.id)
  samples : ∀ e ∈ x.entities, ∃ e' ∈ y.entities, e'.id = e.id ∧
    e'.samples.entries.Perm e.samples.entries

section Orders

variable {rules : StrategyRules} {records others : List Record} (hperm : others.Perm records)
include hperm

theorem StrategyRules.Reads.perm (hrecords : rules.Reads records) : rules.Reads others where
  names := (hperm.map _).nodup_iff.2 hrecords.names
  applies := fun r hr => hrecords.applies r (hperm.mem_iff.1 hr)
  accepted := fun r hr => hrecords.accepted r (hperm.mem_iff.1 hr)

theorem providesSample_perm {s : Strategy} {id : String} {sample : Sample} :
    ProvidesSample others s id sample ↔ ProvidesSample records s id sample := by
  unfold ProvidesSample
  simp only [hperm.mem_iff]

/-- Joins of the same records in different orders are the same. -/
theorem StrategyRules.JoinsFiles.sameJoin {x y : Extractor} (hx : rules.JoinsFiles records x)
    (hy : rules.JoinsFiles others y) : SameJoin x y := by
  have hids : (y.entities.map Entity.id).Perm (x.entities.map Entity.id) := by
    rw [hx.ids, hy.ids, List.perm_ext_iff_of_nodup (nodup_eraseDups _) (nodup_eraseDups _)]
    intro id
    rw [List.mem_eraseDups, List.mem_eraseDups, (hperm.map _).mem_iff]
  refine ⟨hids, fun e he => ?_⟩
  obtain ⟨e', he', hid⟩ := List.mem_map.1 (hids.mem_iff.2 (List.mem_map_of_mem he))
  refine ⟨e', he', hid, OrderedMap.entries_perm_of_find? fun label => ?_⟩
  rw [Option.ext_iff]
  intro sample
  rw [hx.samples e he, hy.samples e' he', hid]
  simp only [providesSample_perm hperm]

end Orders

end Extraction

/-! ## Explored states -/

/-- The suffixes of the explored states tell the strategies apart. -/
theorem ownFiles_stateExploration : (StrategyRules.ofDescriptor .stateExploration).OwnFiles where
  labels := by decide
  suffixed := by decide
  apart := by decide

/-- A file that is selected holds a strategy. -/
theorem exists_applies_of_accepts {selector : FileSelector}
    (hselector : FileSelector.make Descriptor.stateExploration.filePatterns
      Descriptor.stateExploration.reserved = .ok selector) {name : String}
    (hname : selector.accepts name = true) :
    ∃ s ∈ Descriptor.stateExploration.strategies, StrategyRules.applies s name = true := by
  have hpatterns : FileSelector.readPatterns Descriptor.stateExploration.filePatterns =
      .ok ([".gml.rand.json", ".gml.strat.json", ".gml.optim.json"].map fun suffix =>
        .zeroOrMore :: suffix.toList.map .literal) := rfl
  have hascii : ∀ suffix ∈ [".gml.rand.json", ".gml.strat.json", ".gml.optim.json"],
      suffix.toList.all Bytes.isAscii = true ∧ suffix.toList.getLast? ≠ some '.' := by decide
  have hstrategy : ∀ suffix ∈ [".gml.rand.json", ".gml.strat.json", ".gml.optim.json"],
      ∃ s ∈ Descriptor.stateExploration.strategies, s.fileSuffix ≠ none ∧ s.suffix = suffix := by
    decide
  obtain ⟨patterns, hread, hselector⟩ := bind_eq_ok hselector
  rw [hpatterns] at hread
  cases hread
  split at hselector
  · cases hselector
  cases hselector
  obtain ⟨tokens, htokens, hmatches⟩ := List.any_eq_true.1 (Bool.and_eq_true_iff.1 hname).2
  obtain ⟨suffix, hsuffix, rfl⟩ := List.mem_map.1 htokens
  obtain ⟨hall, hlast⟩ := hascii suffix hsuffix
  obtain ⟨s, hs, hsome, rfl⟩ := hstrategy suffix hsuffix
  refine ⟨s, hs, (StrategyRules.applies_iff hsome name).2 ?_⟩
  exact (Glob.matchesName_suffix_iff (List.all_eq_true.1 hall) hlast name).1 hmatches

/-- Files of explored states are joined by their names, in whatever order they come: each holds one
strategy and brings a sample that no file before it has brought. -/
theorem own_files_join {selector : FileSelector}
    (hselector : FileSelector.make Descriptor.stateExploration.filePatterns
      Descriptor.stateExploration.reserved = .ok selector) {records : List Record}
    (hnames : (records.map Record.fileName).Nodup)
    (haccepts : ∀ r ∈ records, selector.accepts r.fileName = true) {x : Extractor}
    (h : (Extractor.ofDescriptor .stateExploration).ingestAll records = .ok x) :
    let rules := StrategyRules.ofDescriptor .stateExploration
    (∀ r ∈ records, ∃ s ∈ rules.strategies, rules.held r.fileName = [s] ∧
        r.fileName = s.ownFile (rules.identify r)) ∧
      (∀ before r after y, records = before ++ r :: after →
        (Extractor.ofDescriptor .stateExploration).ingestAll before = .ok y →
        ∀ e ∈ y.entities, e.id = rules.identify r →
          ∀ s ∈ rules.held r.fileName, e.samples.find? s.label = none) ∧
      rules.JoinsFiles records x ∧
      ∀ others : List Record, others.Perm records →
        ∃ y, (Extractor.ofDescriptor .stateExploration).ingestAll others = .ok y ∧
          rules.JoinsFiles others y ∧ SameJoin x y := by
  intro rules
  have hrules : rules.OwnFiles := ownFiles_stateExploration
  have hstart : Extractor.ofDescriptor .stateExploration = .strategies rules ∅ := rfl
  rw [hstart] at h ⊢
  obtain ⟨haccepted, rfl⟩ := Extractor.ingestAll_strategies_eq_ok_iff.1 h
  have happlies : ∀ r ∈ records, ∃ s ∈ rules.strategies,
      StrategyRules.applies s r.fileName = true :=
    fun r hr => exists_applies_of_accepts hselector (haccepts r hr)
  have hrecords : rules.Reads records := ⟨hnames, happlies, haccepted⟩
  refine ⟨?_, ?_, joinsFiles hrecords hrules, ?_⟩
  · intro r hr
    obtain ⟨s, hs, hfile⟩ := happlies r hr
    exact ⟨s, hs, hrules.held_eq_singleton hs hfile, hrules.fileName_eq hs hfile⟩
  · rintro before r after y rfl hy e he hid s hs
    obtain ⟨-, rfl⟩ := Extractor.ingestAll_strategies_eq_ok_iff.1 hy
    exact find?_before_eq_none hrules hrecords he hid hs
  · intro others hperm
    have hothers := hrecords.perm hperm
    have hjoins := joinsFiles hothers hrules
    exact ⟨_, Extractor.ingestAll_strategies_eq_ok_iff.2 ⟨hothers.accepted, rfl⟩, hjoins,
      (joinsFiles hrecords hrules).sameJoin hperm hjoins⟩

/-- Files of two networks, in turns. -/
def interleavedFiles : List Record :=
  [Extractor.statesRecord "a.gml.rand.json" "random_result",
    Extractor.statesRecord "b.1.gml.strat.json" "strategy_result",
    Extractor.statesRecord "a.gml.optim.json" "strategy_result",
    Extractor.statesRecord "b.1.gml.rand.json" "random_result",
    Extractor.statesRecord "a.gml.strat.json" "strategy_result",
    Extractor.statesRecord "b.1.gml.optim.json" "strategy_result"]

theorem interleavedFiles_join : ∃ x entities,
    (Extractor.ofDescriptor .stateExploration).ingestAll interleavedFiles = .ok x ∧
      x.finish.2 = .ok entities ∧ entities.map Entity.id = ["a", "b.1"] ∧
      ∃ y, (Extractor.ofDescriptor .stateExploration).ingestAll interleavedFiles.reverse = .ok y ∧
        SameJoin x y := by
  have haccepts : (FileSelector.make Descriptor.stateExploration.filePatterns
      Descriptor.stateExploration.reserved).toOption.any (fun selector =>
        interleavedFiles.all fun r => selector.accepts r.fileName) = true := by
    decide +kernel
  have hread : ((Extractor.ofDescriptor .stateExploration).ingestAll
      interleavedFiles).toOption.any (fun x => x.finish.2.toOption.any fun _ => true) = true := by
    decide +kernel
  obtain ⟨selector, hselector, haccepts⟩ := exists_of_any haccepts
  obtain ⟨x, hx, hfinish⟩ := exists_of_any hread
  obtain ⟨entities, hentities, -⟩ := exists_of_any hfinish
  have hnames : (interleavedFiles.map Record.fileName).Nodup := by decide +kernel
  obtain ⟨-, -, hjoins, horders⟩ :=
    own_files_join hselector hnames (List.all_eq_true.1 haccepts) hx
  obtain ⟨y, hy, -, hsame⟩ := horders interleavedFiles.reverse (List.reverse_perm _)
  obtain ⟨rfl, -⟩ := hjoins.finished entities hentities
  exact ⟨x, _, hx, hentities, hjoins.ids.trans (by decide +kernel), y, hy, hsame⟩

end FigureData
