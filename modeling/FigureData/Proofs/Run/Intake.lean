/-
  Taking files in: what an intake of many files leaves behind.

  Whether a file is accepted does not depend on what was collected before it, because an
  extractor reads a record on its own and only then adds it.  So a rejected file can be
  left out of the intake from the start.

  Proved:
  * `Extractor.fresh_of_ingest`, `Extractor.ingest_eq_error_iff`: the verdict on a record is
    that of an extractor that has seen nothing.
  * `Intake.takeAll_remove_rejected`: an intake that skips files ends like the intake of the
    accepted files alone, apart from the names of the skipped files.
  * `Intake.takeAll_eq_ok_iff`: it ends well exactly when no file has a fault that reaches
    beyond the file, and then every file is counted or listed.
  * `Intake.takeAll_abort`: an intake that may not skip files ends well only when it accepts all.
  * `Intake.takeAll_induction`: what every accepted record keeps holds in the end.
  * `Intake.take_enters`, `Intake.takeAll_enters`: what has been collected are the contributions
    of the files, entered one after the other.
-/
import FigureData.Proofs.Extraction.Merging
import FigureData.Run.Intake

namespace FigureData

open Extraction Outcome

/-! ## Verdicts -/

namespace Extractor

variable {x y : Extractor} {r : Record}

/-- Ingesting keeps the kind of extraction. -/
theorem fresh_of_ingest (h : x.ingest r = .ok y) : y.fresh = x.fresh := by
  cases x with
  | strategies rules entities =>
    obtain ⟨c, -, rfl⟩ := map_eq_ok h
    cases c <;> rfl
  | errorRates orderings entities =>
    obtain ⟨more, -, rfl⟩ := map_eq_ok h
    rfl
  | complexity levels =>
    obtain ⟨repetition, -, rfl⟩ := map_eq_ok h
    rfl
  | classification entities =>
    obtain ⟨more, -, rfl⟩ := map_eq_ok h
    rfl
  | packetLoss entities =>
    obtain ⟨e, -, rfl⟩ := map_eq_ok h
    rfl

/-- The extractor of a descriptor has seen nothing. -/
theorem fresh_ofDescriptor (d : Descriptor) : (ofDescriptor d).fresh = ofDescriptor d := by
  unfold ofDescriptor
  split <;> rfl

/-- A record is refused for what it holds, not for what was collected before. -/
theorem ingest_eq_error_iff {fault : Fault} :
    x.ingest r = .error fault ↔ x.fresh.ingest r = .error fault := by
  cases x <;> exact map_eq_error.trans map_eq_error.symm

end Extractor

namespace Intake

/-- The fault that an extractor of this kind finds in the outcome of a file. -/
def faultOf? (x : Extractor) (item : Except Fault Record) : Option Fault :=
  match item.bind x.ingest with
  | .ok _ => none
  | .error fault => some fault

/-- Is the outcome of a file refused for a fault of that file? -/
def isRejected (x : Extractor) (item : Except Fault Record) : Bool :=
  (faultOf? x item).any Fault.isFileLevel

/-- Names of the files that are refused. -/
def rejectedNames (x : Extractor) (items : List (Except Fault Record)) : List String :=
  (items.filter (isRejected x)).filterMap fun item => (faultOf? x item).map faultyFile

theorem faultOf?_eq_some_iff {x : Extractor} {item : Except Fault Record} {fault : Fault} :
    faultOf? x item = some fault ↔ item.bind x.ingest = .error fault := by
  unfold faultOf?
  split
  next h => rw [h]; simp
  next h => rw [h]; simp

theorem faultOf?_fresh (x : Extractor) (item : Except Fault Record) :
    faultOf? x.fresh item = faultOf? x item := by
  apply Option.ext
  intro fault
  rw [faultOf?_eq_some_iff, faultOf?_eq_some_iff]
  cases item with
  | error e => exact Iff.rfl
  | ok r => exact Extractor.ingest_eq_error_iff.symm

/-! ## One file -/

section Take

variable {policy : FilePolicy} {s : Intake} {item : Except Fault Record}

theorem faultOf?_eq_none_iff {x : Extractor} :
    faultOf? x item = none ↔ ∃ y, item.bind x.ingest = .ok y := by
  unfold faultOf?
  split
  next y h => rw [h]; simp
  next h => rw [h]; simp

theorem take_of_ok {y : Extractor} (h : item.bind s.extractor.ingest = .ok y) :
    s.take policy item = .ok { s with extractor := y, inputFiles := s.inputFiles + 1 } := by
  unfold take
  rw [h]

theorem take_of_error {fault : Fault} (h : item.bind s.extractor.ingest = .error fault) :
    s.take policy item =
      if maySkip policy fault then .ok { s with skipped := s.skipped ++ [faultyFile fault] }
      else .error fault := by
  unfold take
  rw [h]

theorem fresh_of_take {s' : Intake} (h : s.take policy item = .ok s') :
    s'.extractor.fresh = s.extractor.fresh := by
  cases hy : item.bind s.extractor.ingest with
  | ok y =>
    rw [take_of_ok hy] at h
    cases h
    obtain ⟨r, -, hr⟩ := bind_eq_ok hy
    exact Extractor.fresh_of_ingest hr
  | error fault =>
    rw [take_of_error hy] at h
    split at h
    · cases h
      rfl
    · cases h

end Take

/-! ## Many files -/

section TakeAll

variable {items : List (Except Fault Record)}

theorem takeAll_cons (policy : FilePolicy) (s : Intake) (item : Except Fault Record) :
    s.takeAll policy (item :: items) =
      (s.take policy item).bind fun next => next.takeAll policy items := rfl

theorem maySkip_skipAndWarn (fault : Fault) : maySkip .skipAndWarn fault = fault.isFileLevel :=
  Bool.and_true _

/-- A file is refused for its own sake, taken in, or ends the intake, whatever was skipped
before it. -/
theorem take_skipAndWarn (s : Intake) (item : Except Fault Record) :
    (∃ fault, faultOf? s.extractor item = some fault ∧ fault.isFileLevel = true ∧
      ∀ names, take .skipAndWarn { s with skipped := names } item =
        .ok { s with skipped := names ++ [faultyFile fault] }) ∨
    (∃ y, faultOf? s.extractor item = none ∧ y.fresh = s.extractor.fresh ∧
      ∀ names, take .skipAndWarn { s with skipped := names } item =
        .ok { s with extractor := y, inputFiles := s.inputFiles + 1, skipped := names }) ∨
    (∃ fault, faultOf? s.extractor item = some fault ∧ fault.isFileLevel = false ∧
      ∀ names, take .skipAndWarn { s with skipped := names } item = .error fault) := by
  cases hf : faultOf? s.extractor item with
  | none =>
    obtain ⟨y, hy⟩ := faultOf?_eq_none_iff.1 hf
    obtain ⟨r, -, hr⟩ := bind_eq_ok hy
    exact .inr (.inl ⟨y, rfl, Extractor.fresh_of_ingest hr, fun names =>
      take_of_ok (s := { s with skipped := names }) hy⟩)
  | some fault =>
    have htake : ∀ names, take .skipAndWarn { s with skipped := names } item = _ := fun names =>
      take_of_error (s := { s with skipped := names }) (faultOf?_eq_some_iff.1 hf)
    cases hlevel : fault.isFileLevel with
    | true =>
      have hskip : maySkip .skipAndWarn fault = true := by rw [maySkip_skipAndWarn, hlevel]
      exact .inl ⟨fault, rfl, hlevel, fun names => (htake names).trans (if_pos hskip)⟩
    | false =>
      have hstop : ¬ maySkip .skipAndWarn fault = true := by
        rw [maySkip_skipAndWarn, hlevel]
        exact Bool.false_ne_true
      exact .inr (.inr ⟨fault, rfl, hlevel, fun names => (htake names).trans (if_neg hstop)⟩)

/-- An intake that skips files ends like the intake of the accepted files alone, apart from
the names of the skipped files. -/
theorem takeAll_remove_rejected (x : Extractor) {s : Intake} (hs : s.extractor.fresh = x.fresh)
    (items : List (Except Fault Record)) (names kept : List String) :
    takeAll .skipAndWarn { s with skipped := names } items =
      (takeAll .skipAndWarn { s with skipped := kept }
        (items.filter fun item => !isRejected x item)).map fun s' =>
          { s' with skipped := names ++ rejectedNames x items } := by
  induction items generalizing s names with
  | nil =>
    show Except.ok _ = Except.ok _
    rw [rejectedNames, List.filter_nil, List.filterMap_nil, List.append_nil]
  | cons item rest ih =>
    have hfault : faultOf? s.extractor item = faultOf? x item := by
      rw [← faultOf?_fresh, hs, faultOf?_fresh]
    rw [takeAll_cons, List.filter_cons]
    rcases take_skipAndWarn s item with
      ⟨fault, hf, hlevel, htake⟩ | ⟨y, hf, hy, htake⟩ | ⟨fault, hf, hlevel, htake⟩
    · rw [hfault] at hf
      have hrej : isRejected x item = true := by rw [isRejected, hf, Option.any_some, hlevel]
      have hnames : rejectedNames x (item :: rest) = faultyFile fault :: rejectedNames x rest := by
        unfold rejectedNames
        rw [List.filter_cons, if_pos hrej, List.filterMap_cons, hf, Option.map_some]
      rw [hrej, Bool.not_true, if_neg Bool.false_ne_true, htake, hnames]
      have := ih hs (names ++ [faultyFile fault])
      rw [List.append_assoc] at this
      exact this
    · rw [hfault] at hf
      have hrej : isRejected x item = false := by rw [isRejected, hf, Option.any_none]
      have hnames : rejectedNames x (item :: rest) = rejectedNames x rest := by
        unfold rejectedNames
        rw [List.filter_cons, if_neg (by rw [hrej]; exact Bool.false_ne_true)]
      rw [hrej, Bool.not_false, if_pos rfl, takeAll_cons, htake, htake, hnames]
      exact ih (s := { s with extractor := y, inputFiles := s.inputFiles + 1 }) (hy.trans hs) names
    · rw [hfault] at hf
      have hrej : isRejected x item = false := by rw [isRejected, hf, Option.any_some, hlevel]
      rw [hrej, Bool.not_false, if_pos rfl, takeAll_cons, htake, htake]
      rfl

/-- Where nothing is rejected, nothing is skipped. -/
theorem skipped_of_takeAll {x : Extractor} {s s' : Intake} (hs : s.extractor.fresh = x.fresh)
    (hnone : ∀ item ∈ items, isRejected x item = false)
    (h : s.takeAll .skipAndWarn items = .ok s') : s'.skipped = s.skipped := by
  have hfilter : (items.filter fun item => !isRejected x item) = items := by
    apply List.filter_eq_self.2
    intro item hi
    rw [hnone item hi]
    rfl
  have hrejected : rejectedNames x items = [] := by
    have hempty : items.filter (isRejected x) = [] := by
      apply List.filter_eq_nil_iff.2
      intro item hi
      simp [hnone item hi]
    unfold rejectedNames
    rw [hempty]
    rfl
  have hall := takeAll_remove_rejected x hs items s.skipped s.skipped
  rw [hfilter, hrejected, List.append_nil] at hall
  have hall' : s.takeAll .skipAndWarn items =
      (s.takeAll .skipAndWarn items).map fun s' => { s' with skipped := s.skipped } := hall
  rw [h] at hall'
  obtain ⟨s'', hs'', he⟩ := map_eq_ok hall'.symm
  cases hs''
  rw [← he]

/-- An intake that skips files ends well exactly when no file has a fault that reaches
beyond the file. -/
theorem takeAll_eq_ok_iff (x : Extractor) {s : Intake} (hs : s.extractor.fresh = x.fresh) :
    (∃ s', s.takeAll .skipAndWarn items = .ok s') ↔
      ∀ item ∈ items, ∀ fault, faultOf? x item = some fault → fault.isFileLevel = true := by
  induction items generalizing s with
  | nil => exact iff_of_true ⟨s, rfl⟩ (by simp)
  | cons item rest ih =>
    have hfault : faultOf? s.extractor item = faultOf? x item := by
      rw [← faultOf?_fresh, hs, faultOf?_fresh]
    rw [List.forall_mem_cons, takeAll_cons]
    rcases take_skipAndWarn s item with
      ⟨fault, hf, hlevel, htake⟩ | ⟨y, hf, hy, htake⟩ | ⟨fault, hf, hlevel, htake⟩
    · rw [htake s.skipped, ← hfault, hf]
      refine (ih (s := { s with skipped := s.skipped ++ [faultyFile fault] }) hs).trans
        (and_iff_right ?_).symm
      intro fault' he
      rw [← Option.some.inj he]
      exact hlevel
    · rw [htake s.skipped, ← hfault, hf]
      refine (ih (s := { s with extractor := y, inputFiles := s.inputFiles + 1 })
        (hy.trans hs)).trans (and_iff_right ?_).symm
      intro fault' he
      cases he
    · rw [htake s.skipped, ← hfault, hf]
      constructor
      · rintro ⟨s', he⟩
        cases he
      · intro h
        rw [h.1 fault rfl] at hlevel
        cases hlevel

theorem fresh_of_takeAll {policy : FilePolicy} {s s' : Intake}
    (h : s.takeAll policy items = .ok s') : s'.extractor.fresh = s.extractor.fresh := by
  induction items generalizing s with
  | nil =>
    cases h
    rfl
  | cons item rest ih =>
    rw [takeAll_cons] at h
    obtain ⟨next, hnext, h⟩ := bind_eq_ok h
    exact (ih h).trans (fresh_of_take hnext)

/-- Every file is counted or listed. -/
theorem counts_of_takeAll {s s' : Intake} (h : s.takeAll .skipAndWarn items = .ok s') :
    s'.inputFiles + s'.skipped.length = s.inputFiles + s.skipped.length + items.length := by
  induction items generalizing s with
  | nil =>
    cases h
    rfl
  | cons item rest ih =>
    rw [takeAll_cons] at h
    rcases take_skipAndWarn s item with
      ⟨fault, -, -, htake⟩ | ⟨y, -, -, htake⟩ | ⟨fault, -, -, htake⟩
    · rw [htake s.skipped] at h
      have := ih h
      simp only [List.length_append, List.length_cons, List.length_nil] at this ⊢
      omega
    · rw [htake s.skipped] at h
      have := ih h
      simp only [List.length_cons] at this ⊢
      omega
    · rw [htake s.skipped] at h
      cases h

/-- An intake that may not skip files ends well only when it accepts them all. -/
theorem takeAll_abort {s s' : Intake} (h : s.takeAll .abort items = .ok s') :
    s'.inputFiles = s.inputFiles + items.length ∧ s'.skipped = s.skipped ∧
      ∀ item ∈ items, faultOf? s.extractor item = none := by
  induction items generalizing s with
  | nil =>
    cases h
    exact ⟨rfl, rfl, by simp⟩
  | cons item rest ih =>
    rw [takeAll_cons] at h
    obtain ⟨next, hnext, h⟩ := bind_eq_ok h
    obtain ⟨hcount, hskipped, hrest⟩ := ih h
    cases hy : item.bind s.extractor.ingest with
    | error fault =>
      have hstop : ¬ maySkip .abort fault = true := by simp [maySkip]
      rw [take_of_error hy, if_neg hstop] at hnext
      cases hnext
    | ok y =>
      rw [take_of_ok hy] at hnext
      cases hnext
      refine ⟨?_, hskipped, ?_⟩
      · rw [hcount, List.length_cons]
        show s.inputFiles + 1 + rest.length = _
        omega
      · rw [List.forall_mem_cons]
        refine ⟨faultOf?_eq_none_iff.2 ⟨y, hy⟩, ?_⟩
        intro other hother
        obtain ⟨r, -, hr⟩ := bind_eq_ok hy
        have hfault := hrest other hother
        rwa [← faultOf?_fresh, Extractor.fresh_of_ingest hr, faultOf?_fresh] at hfault

/-- What every accepted record keeps holds of what has been collected. -/
theorem takeAll_induction {policy : FilePolicy} {P : Extractor → Prop} {s s' : Intake}
    (hs : P s.extractor)
    (hstep : ∀ r x y, .ok r ∈ items → P x → x.ingest r = .ok y → P y)
    (h : s.takeAll policy items = .ok s') : P s'.extractor := by
  induction items generalizing s with
  | nil =>
    cases h
    exact hs
  | cons item rest ih =>
    rw [takeAll_cons] at h
    obtain ⟨next, hnext, h⟩ := bind_eq_ok h
    have hkept : P next.extractor := by
      cases hy : item.bind s.extractor.ingest with
      | ok y =>
        obtain ⟨r, rfl, hr⟩ := bind_eq_ok hy
        rw [take_of_ok hy] at hnext
        cases hnext
        exact hstep r _ _ (List.mem_cons_self ..) hs hr
      | error fault =>
        rw [take_of_error hy] at hnext
        split at hnext
        · cases hnext
          exact hs
        · cases hnext
    exact ih hkept (fun r x y hr => hstep r x y (List.mem_cons_of_mem _ hr)) h

/-- A file adds its contribution, if it has one. -/
theorem take_enters {policy : FilePolicy} {rules : StrategyRules} {s next : Intake}
    {m : OrderedMap Entity} {item : Except Fault Record} (hs : s.extractor = .strategies rules m)
    (h : s.take policy item = .ok next) :
    next.extractor = .strategies rules (enterAll (rules.contribution? item).toList m) := by
  cases hread : item.bind rules.read with
  | error fault =>
    have hingest : item.bind s.extractor.ingest = .error fault := by
      rw [hs]
      rcases bind_eq_error hread with rfl | ⟨r, rfl, hr⟩
      · rfl
      · exact map_eq_error.2 hr
    rw [StrategyRules.contribution?_of_error hread]
    rw [take_of_error hingest] at h
    split at h
    · cases h
      exact hs
    · cases h
  | ok c =>
    obtain ⟨r, rfl, hr⟩ := bind_eq_ok hread
    have hingest : ∀ y, (Extractor.strategies rules m).ingest r = .ok y →
        next.extractor = y := by
      intro y hy
      rw [take_of_ok (show (Except.ok r).bind s.extractor.ingest = .ok y from hs ▸ hy)] at h
      cases h
      rfl
    rw [StrategyRules.contribution?_of_ok hread]
    apply hingest
    show (rules.read r).map _ = _
    rw [hr]
    cases c with
    | some c => rfl
    | none => rfl

/-- What has been collected are the contributions of the files, entered one after the other. -/
theorem takeAll_enters {policy : FilePolicy} {rules : StrategyRules} {s s' : Intake}
    {m : OrderedMap Entity} (hs : s.extractor = .strategies rules m)
    (h : s.takeAll policy items = .ok s') :
    s'.extractor = .strategies rules (enterAll (items.filterMap rules.contribution?) m) := by
  induction items generalizing s m with
  | nil =>
    cases h
    exact hs
  | cons item rest ih =>
    rw [takeAll_cons] at h
    obtain ⟨next, hnext, hmore⟩ := bind_eq_ok h
    rw [ih (take_enters hs hnext) hmore, List.filterMap_cons]
    cases rules.contribution? item with
    | none => rfl
    | some c => rfl

end TakeAll

end Intake

end FigureData
