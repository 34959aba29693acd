/-
  What the loader has required, extraction finds.

  The pointers that every document must have are declared; the pointers at which an extractor looks
  come from its strategies, its ideal value and its scalars, or are its own.  Reading is followed
  step by step: a step either finds its pointer, or fails because of the shape of what is there, or
  fails because nothing is there.  The last cannot happen in a document that was loaded when both
  lists have the same pointers, as they have in the catalogue.

  Proved:
  * `Extractor.looksAt_ingest`: how a record ends at the pointers of its extractor.
  * `Loader.checkRequired_eq_error_iff`: the loader refuses a document at the first required pointer
    that it lacks.
  * `Evaluation.exists_pointers`: in the catalogue the pointers are the required ones.
  * `loaded_documents_complete`: no document that was loaded lacks what extraction looks for.

  Not covered: evaluations that declare no required pointers.
-/
import FigureData.Proofs.Extraction.Levels
import FigureData.Proofs.Run.CostSamples
import FigureData.Proofs.Run.InputFiles

namespace FigureData

open Extraction Outcome

/-! ## Steps that look at pointers -/

/-- A fault about the shape of a part of a document that is there. -/
structure Fault.IsOfShape (fault : Fault) : Prop where
  family : fault.family = .schema
  code : fault.code ∈ ["not_an_array", "missing_field", "not_a_number", "not_a_count"]

theorem Fault.isOfShape_inFile {code : String}
    (h : code ∈ ["not_an_array", "missing_field", "not_a_number", "not_a_count"])
    (message file : String) : (Fault.inFile code message file).IsOfShape where
  family := rfl
  code := h

theorem Fault.IsOfShape.withContext {fault : Fault} (h : fault.IsOfShape) (name value : String) :
    (fault.withContext name value).IsOfShape where
  family := h.family
  code := h.code

/-- An outcome of looking at some pointers: all were found when there is a value, and a fault is
about a shape or about one that was not found. -/
structure LooksAt (pointers : List String) (j : Json) (file : String) {α : Type}
    (outcome : Except Fault α) : Prop where
  found : ∀ a, outcome = .ok a → ∀ pointer ∈ pointers, (j.at? pointer).isSome = true
  fault : ∀ fault, outcome = .error fault → fault.IsOfShape ∨
    ∃ pointer ∈ pointers, j.at? pointer = none ∧ fault = .missingKey pointer file

section Steps

variable {α β : Type} {j : Json} {file : String} {pointers first rest : List String}

theorem looksAt_ok (a : α) : LooksAt [] j file (.ok a) where
  found _ _ _ h := by cases h
  fault _ h := by cases h

theorem looksAt_of_shape {fault : Fault} (h : fault.IsOfShape) :
    LooksAt pointers j file (.error fault : Except Fault α) where
  found _ he := by cases he
  fault _ he := .inl (Except.error.inj he ▸ h)

theorem LooksAt.bind {x : Except Fault α} {f : α → Except Fault β} (hx : LooksAt first j file x)
    (hf : ∀ a, x = .ok a → LooksAt rest j file (f a)) :
    LooksAt (first ++ rest) j file (x >>= f) where
  found b h pointer hpointer := by
    obtain ⟨a, ha, h⟩ := bind_eq_ok h
    rcases List.mem_append.1 hpointer with hpointer | hpointer
    · exact hx.found a ha pointer hpointer
    · exact (hf a ha).found b h pointer hpointer
  fault fault h := by
    rcases bind_eq_error h with h | ⟨a, ha, h⟩
    · refine (hx.fault fault h).imp_right ?_
      rintro ⟨pointer, hpointer, hmissing⟩
      exact ⟨pointer, List.mem_append_left _ hpointer, hmissing⟩
    · refine ((hf a ha).fault fault h).imp_right ?_
      rintro ⟨pointer, hpointer, hmissing⟩
      exact ⟨pointer, List.mem_append_right _ hpointer, hmissing⟩

/-- A last step that looks no further. -/
theorem LooksAt.bind_nil {x : Except Fault α} {f : α → Except Fault β}
    (hx : LooksAt pointers j file x) (hf : ∀ a, LooksAt [] j file (f a)) :
    LooksAt pointers j file (x >>= f) := by
  have h := hx.bind fun a _ => hf a
  rwa [List.append_nil] at h

theorem LooksAt.map {x : Except Fault α} (hx : LooksAt pointers j file x) (f : α → β) :
    LooksAt pointers j file (x.map f) where
  found b h := by
    obtain ⟨a, ha, -⟩ := map_eq_ok h
    exact hx.found a ha
  fault fault h := hx.fault fault (map_eq_error.1 h)

theorem looksAt_mapM {f : α → Except Fault β} {look : α → List String} {xs : List α}
    (h : ∀ x ∈ xs, LooksAt (look x) j file (f x)) :
    LooksAt (xs.flatMap look) j file (xs.mapM f) := by
  induction xs with
  | nil => exact looksAt_ok _
  | cons x more ih =>
    rw [List.forall_mem_cons] at h
    rw [List.mapM_cons, List.flatMap_cons]
    exact h.1.bind fun y _ => (ih h.2).bind_nil fun ys => looksAt_ok _

end Steps

namespace Extraction

variable (j : Json) (pointer file : String)

theorem looksAt_require : LooksAt [pointer] j file (require j pointer file) where
  found part h p hp := by
    rw [List.mem_singleton.1 hp, require_eq_ok_iff.1 h]
    rfl
  fault fault h := by
    unfold require at h
    split at h
    · cases h
    next hmissing =>
      exact .inr ⟨pointer, List.mem_singleton_self _, hmissing, (Except.error.inj h).symm⟩

theorem looksAt_requireNumber : LooksAt [pointer] j file (requireNumber j pointer file) := by
  unfold requireNumber
  refine (looksAt_require j pointer file).bind_nil fun part => ?_
  split
  · exact looksAt_ok _
  · exact looksAt_of_shape ((Fault.isOfShape_inFile (by decide) _ _).withContext _ _)

theorem looksAt_requireArray : LooksAt [pointer] j file (requireArray j pointer file) := by
  unfold requireArray
  refine (looksAt_require j pointer file).bind_nil fun part => ?_
  split
  · exact looksAt_ok _
  · exact looksAt_of_shape ((Fault.isOfShape_inFile (by decide) _ _).withContext _ _)

theorem looksAt_measurement (part : Json) (what : String) :
    LooksAt [] j file (measurement part what file) := by
  unfold measurement
  split
  · exact looksAt_ok _
  split
  · exact looksAt_ok _
  · exact looksAt_of_shape (Fault.isOfShape_inFile (by decide) _ _)

theorem looksAt_elementOf (source : SampleSource) (element : Json) :
    LooksAt [] j file (elementOf source file element) := by
  unfold elementOf
  split
  · exact looksAt_measurement j file element _
  · split
    next part _ => exact looksAt_measurement j file part _
    next => exact looksAt_of_shape (Fault.isOfShape_inFile (by decide) _ _)

theorem looksAt_readSample (source : SampleSource) :
    LooksAt [source.pointer] j file (readSample j source file) := by
  unfold readSample
  refine (looksAt_requireArray j source.pointer file).bind_nil fun elements => ?_
  have helements : LooksAt (elements.flatMap fun _ => []) j file
      (elements.mapM (elementOf source file)) :=
    looksAt_mapM fun element _ => looksAt_elementOf j file source element
  rw [List.flatMap_eq_nil_iff.2 fun _ _ => rfl] at helements
  exact helements.bind_nil fun measurements => looksAt_ok _

variable {j}

theorem looksAt_document {r : Record} (hj : r.document = .ok j) :
    LooksAt [] j r.fileName r.document := by
  rw [hj]
  exact looksAt_ok j

/-! ## Extractors -/

variable (j)

namespace StrategyRules

variable (rules : StrategyRules)

/-- The pointers at which every document of a file is looked into: those of its strategies and,
when there are any, those of the ideal value and the scalars. -/
def pointers : List String :=
  (rules.held file).map (fun s => s.source.pointer) ++
    if (rules.held file).isEmpty then [] else rules.ideal.toList ++ rules.scalars.map Prod.snd

theorem looksAt_readIdeal : LooksAt rules.ideal.toList j file (rules.readIdeal j file) := by
  unfold readIdeal
  split
  next pointer hpointer =>
    rw [hpointer]
    exact (looksAt_require j pointer file).bind_nil fun part => looksAt_measurement j file part _
  next hnone =>
    rw [hnone]
    exact looksAt_ok _

theorem looksAt_readScalars :
    LooksAt (rules.scalars.map Prod.snd) j file (rules.readScalars j file) := by
  unfold readScalars
  refine LooksAt.bind_nil ?_ fun pairs => looksAt_ok _
  rw [← List.flatMap_pure_eq_map]
  exact looksAt_mapM fun declared _ =>
    (looksAt_requireNumber j declared.2 file).bind_nil fun value => looksAt_ok _

theorem looksAt_samples : LooksAt ((rules.held file).map fun s => s.source.pointer) j file
    ((rules.held file).mapM fun s => do return (s.label, ← readSample j s.source file)) := by
  rw [← List.flatMap_pure_eq_map]
  exact looksAt_mapM fun s _ =>
    (looksAt_readSample j file s.source).bind_nil fun sample => looksAt_ok _

/-- What a document contributes is found at the pointers of its file. -/
theorem looksAt_read {r : Record} (hj : r.document = .ok j) :
    LooksAt (rules.pointers r.fileName) j r.fileName (rules.read r) := by
  unfold read
  rw [← List.nil_append (rules.pointers r.fileName)]
  refine (looksAt_document hj).bind fun document hdocument => ?_
  obtain rfl := Except.ok.inj (hj.symm.trans hdocument)
  refine (rules.looksAt_samples j r.fileName).bind fun samples hsamples => ?_
  have hlength : (rules.held r.fileName).length = samples.length := (mapM_eq_ok hsamples).length_eq
  have hheld : (rules.held r.fileName).isEmpty = samples.isEmpty := by
    rw [Bool.eq_iff_iff, List.isEmpty_iff_length_eq_zero, List.isEmpty_iff_length_eq_zero, hlength]
  rw [hheld]
  cases hempty : samples.isEmpty with
  | true => exact looksAt_ok _
  | false =>
    exact (rules.looksAt_readIdeal j r.fileName).bind fun ideal _ =>
      (rules.looksAt_readScalars j r.fileName).bind_nil fun scalars => looksAt_ok _

end StrategyRules

/-- The pointers at which the document of a repetition is looked into. -/
def repetitionPointers : List String := ["/num_commands", timesSource.pointer]

theorem looksAt_readRepetition {r : Record} (hj : r.document = .ok j)
    (hname : (readComplexityName? r.fileName).isSome = true) :
    LooksAt repetitionPointers j r.fileName (readRepetition r) := by
  unfold readRepetition
  simp only
  split
  next hnone =>
    rw [hnone] at hname
    cases hname
  next =>
    rw [hj]
    refine (looksAt_require j "/num_commands" r.fileName).bind fun part _ => ?_
    split
    · exact looksAt_of_shape (Fault.isOfShape_inFile (by decide) _ _)
    · exact (looksAt_readSample j r.fileName timesSource).bind_nil fun sample => looksAt_ok _

end Extraction

namespace Extractor

/-- The pointers at which an extractor looks into every document of a file; none where it refuses
the name of the file, or where it looks elsewhere in every document. -/
def pointers? (x : Extractor) (file : String) : Option (List String) :=
  match x with
  | .strategies rules _ => some (rules.pointers file)
  | .complexity _ => (readComplexityName? file).map fun _ => repetitionPointers
  | _ => none

/-- A record is refused because of a shape, or because one of these pointers leads nowhere. -/
theorem looksAt_ingest {x : Extractor} {r : Record} {j : Json} {pointers : List String}
    (hj : r.document = .ok j) (h : x.pointers? r.fileName = some pointers) :
    LooksAt pointers j r.fileName (x.ingest r) := by
  cases x with
  | strategies rules entities =>
    cases h
    exact (rules.looksAt_read j hj).map _
  | complexity levels =>
    obtain ⟨name, hname, rfl⟩ := Option.map_eq_some_iff.1 h
    exact (looksAt_readRepetition j hj (Option.isSome_of_eq_some hname)).map _
  | _ => cases h

end Extractor

/-! ## Loading -/

/-- Of several pointers, the first that leads nowhere in a document. -/
def Json.FirstAbsent (j : Json) (pointers : List String) (key : String) : Prop :=
  ∃ before after, pointers = before ++ key :: after ∧
    (∀ pointer ∈ before, (j.at? pointer).isSome = true) ∧ j.at? key = none

theorem Json.exists_firstAbsent {j : Json} {pointers : List String}
    (h : ∃ pointer ∈ pointers, j.at? pointer = none) : ∃ key, j.FirstAbsent pointers key := by
  induction pointers with
  | nil =>
    obtain ⟨pointer, hpointer, -⟩ := h
    cases hpointer
  | cons first more ih =>
    rw [List.exists_mem_cons_iff] at h
    cases hfirst : j.at? first with
    | none => exact ⟨first, [], more, rfl, fun _ hp => absurd hp List.not_mem_nil, hfirst⟩
    | some part =>
      obtain ⟨key, before, after, rfl, hbefore, hkey⟩ := ih (h.resolve_left (by simp [hfirst]))
      refine ⟨key, first :: before, after, rfl, List.forall_mem_cons.2 ⟨?_, hbefore⟩, hkey⟩
      rw [hfirst]
      rfl

namespace Loader

variable {l : Loader} {j : Json} {file : String}

/-- A document is refused at the first required pointer that it lacks. -/
theorem checkRequired_eq_error_iff {fault : Fault} : l.checkRequired j file = .error fault ↔
    ∃ key, j.FirstAbsent l.requiredKeys key ∧ fault = .missingKey key file := by
  unfold checkRequired
  constructor
  · intro h
    split at h
    next key hkey =>
      obtain ⟨habsent, before, after, hkeys, hbefore⟩ := List.find?_eq_some_iff_append.1 hkey
      refine ⟨key, ⟨before, after, hkeys, ?_, Option.isNone_iff_eq_none.1 habsent⟩,
        (Except.error.inj h).symm⟩
      intro pointer hpointer
      simpa using hbefore pointer hpointer
    next => cases h
  · rintro ⟨key, ⟨before, after, hkeys, hbefore, habsent⟩, rfl⟩
    have hfind : l.requiredKeys.find? (fun pointer => (j.at? pointer).isNone) = some key := by
      refine List.find?_eq_some_iff_append.2
        ⟨Option.isNone_iff_eq_none.2 habsent, before, after, hkeys, fun pointer hpointer => ?_⟩
      simpa using hbefore pointer hpointer
    rw [hfind]

/-- A document is let through when it has all of them. -/
theorem checkRequired_eq_ok_iff : l.checkRequired j file = .ok () ↔
    ∀ pointer ∈ l.requiredKeys, (j.at? pointer).isSome = true := by
  constructor
  · intro h pointer hpointer
    by_contra habsent
    rw [Bool.not_eq_true, Option.isSome_eq_false_iff, Option.isNone_iff_eq_none] at habsent
    obtain ⟨key, hkey⟩ := Json.exists_firstAbsent ⟨pointer, hpointer, habsent⟩
    rw [checkRequired_eq_error_iff.2 ⟨key, hkey, rfl⟩] at h
    cases h
  · intro h
    cases hcheck : l.checkRequired j file with
    | ok u => rfl
    | error fault =>
      obtain ⟨key, ⟨before, after, hkeys, -, habsent⟩, -⟩ := checkRequired_eq_error_iff.1 hcheck
      have hpresent := h key (hkeys ▸ List.mem_append_right _ (List.mem_cons_self ..))
      rw [habsent] at hpresent
      cases hpresent

/-- The document of a file is loaded unless it lacks a required part. -/
theorem read_of_document (hformat : l.format = .json) {content : Bytes} {text : String}
    (htext : Bytes.text? content = some text) (hj : Json.readSorted? text = some j) :
    l.read file content =
      (l.checkRequired j file).map fun _ => ⟨Path.join l.folder file, file, .document j⟩ := by
  unfold read
  simp only [htext]
  unfold readContent
  simp only [hformat, hj]
  cases l.checkRequired j file <;> rfl

end Loader

/-! ## The catalogue -/

/-- The pointers that a descriptor names. -/
def Descriptor.pointers (d : Descriptor) : List String :=
  d.strategies.map (fun s => s.source.pointer) ++ (d.ideal.toList ++ d.entityScalars.map Prod.snd)

/-- Where every file holds all strategies, all of them are looked at. -/
theorem Extraction.StrategyRules.pointers_eq {d : Descriptor}
    (hshared : ∀ s ∈ d.strategies, s.fileSuffix = none) (hne : d.strategies ≠ []) (file : String) :
    (StrategyRules.ofDescriptor d).pointers file = d.pointers := by
  have hheld : (StrategyRules.ofDescriptor d).held file = d.strategies := held_eq hshared file
  unfold pointers
  rw [hheld, if_neg]
  · rfl
  · rwa [List.isEmpty_iff]

theorem Extractor.pointers?_of_fresh {x : Extractor} {d : Descriptor}
    (hx : x.fresh = .ofDescriptor d) (file : String) :
    x.pointers? file = (ofDescriptor d).pointers? file := by
  rw [← hx]
  cases x <;> rfl

theorem Extractor.pointers?_of_shared {x : Extractor} {d : Descriptor}
    (hx : x.fresh = .ofDescriptor d) (hd : ofDescriptor d = .strategies (.ofDescriptor d) ∅)
    (hshared : ∀ s ∈ d.strategies, s.fileSuffix = none) (hne : d.strategies ≠ []) (file : String) :
    x.pointers? file = some d.pointers := by
  rw [pointers?_of_fresh hx, hd]
  exact congrArg some (StrategyRules.pointers_eq hshared hne file)

/-- In the catalogue, the pointers at which extraction looks are the required ones. -/
theorem Evaluation.exists_pointers {e : Evaluation} (he : e.descriptor.requiredKeys ≠ []) :
    ∃ pointers : List String,
      (∀ pointer, pointer ∈ pointers ↔ pointer ∈ e.descriptor.requiredKeys) ∧
      ∀ (x : Extractor) (file : String), x.fresh = .ofDescriptor e.descriptor →
        (e = .complexity → (readComplexityName? file).isSome = true) →
        x.pointers? file = some pointers := by
  cases e with
  | costBoxplot =>
    refine ⟨Descriptor.costBoxplot.pointers, fun pointer => ?_, fun x file hx _ => ?_⟩
    · exact (show List.Perm _ _ by decide).mem_iff
    · exact Extractor.pointers?_of_shared hx rfl (by decide) (by decide) file
  | schedulingTime =>
    refine ⟨Descriptor.schedulingTime.pointers, fun pointer => ?_, fun x file hx _ => ?_⟩
    · exact (show List.Perm _ _ by decide).mem_iff
    · exact Extractor.pointers?_of_shared hx rfl (by decide) (by decide) file
  | costComparison number =>
    refine ⟨(Descriptor.costComparison number).pointers, fun pointer => ?_, fun x file hx _ => ?_⟩
    · exact (show List.Perm ["/random_result", "/baseline_mif_result", "/baseline_mil_result",
        "/strategy_result", "/ideal_cost"] ["/random_result", "/strategy_result",
        "/baseline_mif_result", "/baseline_mil_result", "/ideal_cost"] by decide).mem_iff
    · exact Extractor.pointers?_of_shared hx rfl (suffix_costComparison number)
        (List.cons_ne_nil _ _) file
  | complexity =>
    refine ⟨repetitionPointers, fun pointer => Iff.rfl, fun x file hx hname => ?_⟩
    obtain ⟨name, hname⟩ := Option.isSome_iff_exists.1 (hname rfl)
    rw [Extractor.pointers?_of_fresh hx]
    show (readComplexityName? file).map _ = _
    rw [hname]
    rfl
  | errorRate => exact absurd rfl he
  | stateExploration => exact absurd rfl he
  | classification => exact absurd rfl he
  | packetLoss => exact absurd rfl he

/-- Where pointers are required, a document that has all of them is refused for a shape only.  The
extractor looks at no other pointers: a document that lacks one of them is refused by the loader
already, at the first required pointer that leads nowhere. -/
theorem loaded_documents_complete {e : Evaluation} (he : e.descriptor.requiredKeys ≠ [])
    (folder : String) :
    ∃ l pointers, Loader.ofDescriptor folder e.descriptor = .ok l ∧
      (∀ file content text j, Bytes.text? content = some text → Json.readSorted? text = some j →
        l.read file content =
          (l.checkRequired j file).map fun _ => ⟨Path.join folder file, file, .document j⟩) ∧
      (∀ (x : Extractor) (r : Record) (j : Json), x.fresh = .ofDescriptor e.descriptor →
        r.document = .ok j → (e = .complexity → (readComplexityName? r.fileName).isSome = true) →
        x.pointers? r.fileName = some pointers ∧ LooksAt pointers j r.fileName (x.ingest r) ∧
          (l.checkRequired j r.fileName = .ok () →
            ∀ fault, x.ingest r = .error fault → fault.IsOfShape)) ∧
      ∀ (j : Json) (file : String), (∃ pointer ∈ pointers, j.at? pointer = none) →
        ∃ key, j.FirstAbsent e.descriptor.requiredKeys key ∧
          l.checkRequired j file = .error (.missingKey key file) := by
  obtain ⟨selector, hselector⟩ := exists_selector e
  obtain ⟨pointers, hmem, hpointers⟩ := e.exists_pointers he
  have hformat : e.descriptor.format = .json := by
    cases e with
    | classification => exact absurd rfl he
    | _ => rfl
  have hl : Loader.ofDescriptor folder e.descriptor =
      .ok { folder, selector, format := e.descriptor.format
            requiredKeys := e.descriptor.requiredKeys } := by
    unfold Loader.ofDescriptor
    rw [hselector]
    rfl
  refine ⟨_, pointers, hl,
    fun file content text j htext hj => Loader.read_of_document hformat htext hj, ?_, ?_⟩
  · intro x r j hx hj hname
    have hx := hpointers x r.fileName hx hname
    have hlooks := Extractor.looksAt_ingest hj hx
    refine ⟨hx, hlooks, fun hcheck fault hfault => (hlooks.fault fault hfault).resolve_right ?_⟩
    rintro ⟨pointer, hpointer, habsent, -⟩
    have hpresent := Loader.checkRequired_eq_ok_iff.1 hcheck pointer ((hmem pointer).1 hpointer)
    rw [habsent] at hpresent
    cases hpresent
  · rintro j file ⟨pointer, hpointer, habsent⟩
    obtain ⟨key, hkey⟩ := Json.exists_firstAbsent ⟨pointer, (hmem pointer).1 hpointer, habsent⟩
    exact ⟨key, hkey, Loader.checkRequired_eq_error_iff.2 ⟨key, hkey, rfl⟩⟩

/-- The first repetition of the second level. -/
def firstRepetition (j : Json) : Record := ⟨"r1_v2.json", "r1_v2.json", .document j⟩

/-- A repetition without its result, and one whose result is no array. -/
def cutRepetition : Json := .object [("num_commands", .int 3)]

def flatRepetition : Json := .object [("num_commands", .int 3), ("strategy_result", .int 1)]

theorem cutRepetition_refused :
    ∃ l, Loader.ofDescriptor "result_5" (Evaluation.descriptor .complexity) = .ok l ∧
      (∃ key, cutRepetition.FirstAbsent ["/num_commands", "/strategy_result"] key ∧
        l.checkRequired cutRepetition "r1_v2.json" = .error (.missingKey key "r1_v2.json")) ∧
      l.checkRequired flatRepetition "r1_v2.json" = .ok () ∧
      ∃ fault, (Extractor.complexity ∅).ingest (firstRepetition flatRepetition) = .error fault ∧
        fault.IsOfShape := by
  have hname : (readComplexityName? "r1_v2.json").isSome = true := by decide +kernel
  obtain ⟨l, pointers, hl, -, hrecords, hcut⟩ :=
    loaded_documents_complete (e := .complexity) (List.cons_ne_nil _ _) "result_5"
  obtain ⟨hpointers, -, hflat⟩ :=
    hrecords (.complexity ∅) (firstRepetition flatRepetition) _ rfl rfl fun _ => hname
  have hresult : "/strategy_result" ∈ pointers := by
    have heq : some pointers = some repetitionPointers := by
      rw [← hpointers]
      decide +kernel
    rw [Option.some.inj heq]
    decide
  have hloaded : l.checkRequired flatRepetition "r1_v2.json" = .ok () := by
    obtain ⟨selector, -, rfl⟩ := map_eq_ok hl
    have hpresent : ∀ pointer ∈ Descriptor.complexity.requiredKeys,
        (flatRepetition.at? pointer).isSome = true := by
      decide +kernel
    exact Loader.checkRequired_eq_ok_iff.2 hpresent
  have hrefused :
      ((Extractor.complexity ∅).ingest (firstRepetition flatRepetition)).toOption.isNone = true := by
    decide +kernel
  refine ⟨l, hl, hcut _ _ ⟨_, hresult, by decide +kernel⟩, hloaded, ?_⟩
  cases hingest : (Extractor.complexity ∅).ingest (firstRepetition flatRepetition) with
  | error fault => exact ⟨fault, rfl, hflat hloaded fault hingest⟩
  | ok y =>
    rw [hingest] at hrefused
    cases hrefused

end FigureData
